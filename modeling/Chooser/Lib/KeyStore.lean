import Mathlib

/-!
# A store of values by key

The simplest store: under each key there is one value or none.  It changes by acts that put a value
under a key or remove it, and what is found under a key depends on what was there before and on the
acts on this key only (`run_congr`, `run_of_forall_ne`).
-/

namespace KeyStore

inductive Act (κ β : Type*) where
  | put (k : κ) (b : β)
  | remove (k : κ)

variable {κ β : Type*}

/-- The key that an act is about. -/
def Act.key : Act κ β → κ
  | .put k _ => k
  | .remove k => k

/-- What an act leaves under its key. -/
def Act.value : Act κ β → Option β
  | .put _ b => some b
  | .remove _ => none

variable [DecidableEq κ]

def apply (m : κ → Option β) (x : Act κ β) : κ → Option β := Function.update m x.key x.value

def run (m : κ → Option β) (xs : List (Act κ β)) : κ → Option β := xs.foldl apply m

variable {m m' : κ → Option β} {k : κ} {x : Act κ β} {xs : List (Act κ β)}

@[simp] lemma run_nil (m : κ → Option β) : run m ([] : List (Act κ β)) = m := rfl

@[simp] lemma run_cons (m : κ → Option β) (x : Act κ β) (xs : List (Act κ β)) :
    run m (x :: xs) = run (apply m x) xs := rfl

lemma run_append (m : κ → Option β) (xs ys : List (Act κ β)) :
    run m (xs ++ ys) = run (run m xs) ys := List.foldl_append

@[simp] lemma apply_put (m : κ → Option β) (k : κ) (b : β) :
    apply m (.put k b) = Function.update m k (some b) := rfl

@[simp] lemma apply_remove (m : κ → Option β) (k : κ) :
    apply m (.remove k) = Function.update m k none := rfl

lemma apply_self (h : x.key = k) : apply m x k = x.value := by
  subst h
  exact Function.update_self x.key x.value m

lemma apply_of_ne (h : x.key ≠ k) : apply m x k = m k :=
  Function.update_of_ne (Ne.symm h) _ _

/-- What is under a key depends on what was under this key only. -/
lemma run_congr (h : m k = m' k) : run m xs k = run m' xs k := by
  induction xs generalizing m m' with
  | nil => exact h
  | cons x xs ih =>
      refine ih ?_
      by_cases hk : x.key = k
      · rw [apply_self hk, apply_self hk]
      · rw [apply_of_ne hk, apply_of_ne hk, h]

/-- A key that no act is about. -/
lemma run_of_forall_ne (h : ∀ x ∈ xs, x.key ≠ k) : run m xs k = m k := by
  induction xs generalizing m with
  | nil => rfl
  | cons x xs ih =>
      rw [run_cons, ih fun y hy => h y (List.mem_cons_of_mem x hy),
        apply_of_ne (h x List.mem_cons_self)]

end KeyStore
