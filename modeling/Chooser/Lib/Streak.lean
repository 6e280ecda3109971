import Mathlib

/-!
# Streaks in a sequence

Some elements of a sequence are hits, some break a streak, and the others do neither.  A program
that waits for `n` hits with no break between them counts the hits since the last break (`count`);
what it is waiting for says nothing about a counter (`Seen`).  `seen_concat` says that the one
finds the other: a streak of `n` is seen when the counter gets there, or has been before.
-/

namespace Streak

variable {α : Type*} (hit brk : α → Bool)

/-- What one element does to the counter. -/
def next (k : ℕ) (x : α) : ℕ := if hit x then k + 1 else if brk x then 0 else k

/-- The hits since the last break. -/
def count (xs : List α) : ℕ := xs.foldl (next hit brk) 0

/-- Somewhere in the sequence there are `n` hits with no break between them. -/
def Seen (n : ℕ) (xs : List α) : Prop :=
  ∃ w, w <:+: xs ∧ (∀ x ∈ w, brk x = false) ∧ n ≤ w.countP hit

/-- The element at `k` is the first at which they have been seen. -/
def FirstSeen (n k : ℕ) (xs : List α) : Prop :=
  Seen hit brk n (xs.take (k + 1)) ∧ ¬ Seen hit brk n (xs.take k)

variable {hit brk}

lemma count_concat (xs : List α) (x : α) :
    count hit brk (xs ++ [x]) = next hit brk (count hit brk xs) x := by
  simp [count]

lemma next_le (k : ℕ) (x : α) : next hit brk k x ≤ k + 1 := by
  unfold next
  split_ifs <;> omega

/-! ## The counter is the longest streak at the end -/

lemma next_of_not_brk {k : ℕ} {x : α} (h : brk x = false) :
    next hit brk k x = k + [x].countP hit := by
  by_cases hx : hit x <;> simp [next, hx, h]

lemma countP_le_count {w xs : List α} (hw : w <:+ xs) (hbrk : ∀ x ∈ w, brk x = false) :
    w.countP hit ≤ count hit brk xs := by
  induction xs using List.reverseRecOn generalizing w with
  | nil => simp [List.suffix_nil.mp hw]
  | append_singleton xs x ih =>
      rcases List.suffix_concat_iff.mp hw with rfl | ⟨t, rfl, ht⟩
      · simp
      · have hle := ih ht fun y hy => hbrk y (by simp [hy])
        rw [count_concat, next_of_not_brk (hbrk x (by simp)), List.countP_append]
        exact Nat.add_le_add_right hle _

lemma exists_countP_eq_count (hdisj : ∀ x, hit x = true → brk x = false) (xs : List α) :
    ∃ w, w <:+ xs ∧ (∀ x ∈ w, brk x = false) ∧ w.countP hit = count hit brk xs := by
  induction xs using List.reverseRecOn with
  | nil => exact ⟨[], by simp [count]⟩
  | append_singleton xs x ih =>
      cases hx : brk x with
      | true =>
          have hhit : hit x = false := by
            by_contra h
            simp [hdisj x (by simpa using h)] at hx
          exact ⟨[], by simp [count_concat, next, hx, hhit]⟩
      | false =>
          obtain ⟨w, hw, hbrk, hcount⟩ := ih
          refine ⟨w ++ [x], List.suffix_concat_iff.mpr (.inr ⟨w, rfl, hw⟩), ?_, ?_⟩
          · intro y hy
            rcases List.mem_append.mp hy with hy | hy
            · exact hbrk y hy
            · rwa [List.mem_singleton.mp hy]
          · rw [List.countP_append, hcount, count_concat, next_of_not_brk hx]

/-- A counter that starts at 0 counts each element once at most. -/
lemma count_le_length (xs : List α) : count hit brk xs ≤ xs.length := by
  induction xs using List.reverseRecOn with
  | nil => simp [count]
  | append_singleton xs x ih =>
      rw [count_concat, List.length_append, List.length_singleton]
      exact (next_le _ x).trans (Nat.add_le_add_right ih 1)

lemma Seen.mono {n : ℕ} {xs ys : List α} (h : Seen hit brk n xs) (hle : xs <:+: ys) :
    Seen hit brk n ys := by
  obtain ⟨w, hw, hrest⟩ := h
  exact ⟨w, hw.trans hle, hrest⟩

lemma seen_of_le_count (hdisj : ∀ x, hit x = true → brk x = false) {n : ℕ} {xs : List α}
    (h : n ≤ count hit brk xs) : Seen hit brk n xs := by
  obtain ⟨w, hw, hbrk, hcount⟩ := exists_countP_eq_count hdisj xs
  exact ⟨w, hw.isInfix, hbrk, h.trans hcount.ge⟩

/-- **The counter finds the streak.** -/
theorem seen_concat (hdisj : ∀ x, hit x = true → brk x = false) {n : ℕ} {xs : List α} {x : α} :
    Seen hit brk n (xs ++ [x]) ↔ Seen hit brk n xs ∨ n ≤ count hit brk (xs ++ [x]) := by
  constructor
  · rintro ⟨w, hw, hbrk, hn⟩
    rcases List.infix_concat_iff.mp hw with hend | hbefore
    · exact .inr (hn.trans (countP_le_count hend hbrk))
    · exact .inl ⟨w, hbefore, hbrk, hn⟩
  · rintro (h | h)
    · exact h.mono (List.prefix_append xs [x]).isInfix
    · exact seen_of_le_count hdisj h

/-- A streak ends with a hit when it is seen for the first time. -/
lemma hit_of_seen_concat (hdisj : ∀ x, hit x = true → brk x = false) {n : ℕ} {xs : List α} {x : α}
    (h : Seen hit brk n (xs ++ [x])) (hbefore : ¬ Seen hit brk n xs) : hit x = true := by
  by_contra hx
  have hcount := ((seen_concat hdisj).mp h).resolve_left hbefore
  have hle : next hit brk (count hit brk xs) x ≤ count hit brk xs := by
    rw [next, if_neg hx]
    split_ifs <;> omega
  rw [count_concat] at hcount
  exact hbefore (seen_of_le_count hdisj (hcount.trans hle))

/-! ## The first time -/

lemma not_seen_nil {n : ℕ} (hn : 0 < n) : ¬ Seen hit brk n [] := by
  rintro ⟨w, hw, _, hle⟩
  rw [List.infix_nil.mp hw, List.countP_nil] at hle
  omega

/-- What has been seen has been seen for a first time. -/
lemma seen_take_iff {n : ℕ} (hn : 0 < n) {xs : List α} (k : ℕ) :
    Seen hit brk n (xs.take k) ↔ ∃ m < k, FirstSeen hit brk n m xs := by
  induction k with
  | zero => simpa using not_seen_nil hn
  | succ k ih =>
      constructor
      · intro h
        by_cases hbefore : Seen hit brk n (xs.take k)
        · obtain ⟨m, hm, hfirst⟩ := ih.mp hbefore
          exact ⟨m, by omega, hfirst⟩
        · exact ⟨k, by omega, h, hbefore⟩
      · rintro ⟨m, hm, hfirst⟩
        exact hfirst.1.mono (List.take_prefix_take_left (by omega)).isInfix

lemma FirstSeen.unique {n k m : ℕ} {xs : List α} (hk : FirstSeen hit brk n k xs)
    (hm : FirstSeen hit brk n m xs) : k = m := by
  have hle : ∀ {i j : ℕ}, FirstSeen hit brk n i xs → FirstSeen hit brk n j xs → i ≤ j := by
    intro i j hi hj
    by_contra hlt
    exact hi.2 (hj.1.mono (List.take_prefix_take_left (by omega)).isInfix)
  exact Nat.le_antisymm (hle hk hm) (hle hm hk)

end Streak
