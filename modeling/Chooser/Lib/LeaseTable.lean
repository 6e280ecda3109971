import Mathlib

/-!
# Leases

Things are lent to clients for a time that is counted in ticks.  What a table of leases has to
guarantee is that nothing is lent to two clients, and that what was lent stays lent for the time
that was said.

A table maps a client to its lease.  It changes in three ways: a client is given a lease, or has
its lease prolonged (`hold`); a lease is dropped (`drop`); and time passes (`tick`).  A `hold` is
legal if the thing is not lent to anyone else and the client does not have another one.  A legal
run keeps the table exclusive (`exclusive_run`), and a lease is in it until its time is over
(`kept_run`).  Afterwards it is gone (`expired_run`).
-/

namespace LeaseTable

/-- What is lent, and for how many ticks. -/
structure Lease (α : Type*) where
  item : α
  left : ℕ
deriving DecidableEq

abbrev Table (κ α : Type*) := κ → Option (Lease α)

inductive Act (κ α : Type*) where
  | hold (k : κ) (a : α) (n : ℕ)
  | drop (k : κ)
  | tick

variable {κ α : Type*}

/-- A lease in its last tick is gone. -/
def Lease.tick (l : Lease α) : Option (Lease α) :=
  if l.left ≤ 1 then none else some { l with left := l.left - 1 }

/-- No two clients have the same thing. -/
def Exclusive (t : Table κ α) : Prop :=
  ∀ k k' l l', t k = some l → t k' = some l' → l.item = l'.item → k = k'

/-- The acts that are legal on a table. -/
def Allows (t : Table κ α) : Act κ α → Prop
  | .hold k a _ => (∀ l, t k = some l → l.item = a) ∧ ∀ k' l, t k' = some l → l.item = a → k' = k
  | .drop _ => True
  | .tick => True

def apply [DecidableEq κ] (t : Table κ α) : Act κ α → Table κ α
  | .hold k a n => Function.update t k (some ⟨a, n⟩)
  | .drop k => Function.update t k none
  | .tick => fun k => (t k).bind Lease.tick

def run [DecidableEq κ] (t : Table κ α) (xs : List (Act κ α)) : Table κ α := xs.foldl apply t

def Legal [DecidableEq κ] : Table κ α → List (Act κ α) → Prop
  | _, [] => True
  | t, x :: xs => Allows t x ∧ Legal (apply t x) xs

/-- The number of ticks of a run. -/
def ticks (xs : List (Act κ α)) : ℕ :=
  xs.countP fun
    | .tick => true
    | _ => false

variable {t : Table κ α} {k : κ} {l : Lease α} {xs ys : List (Act κ α)}

@[simp] lemma ticks_nil : ticks ([] : List (Act κ α)) = 0 := rfl

@[simp] lemma ticks_append (xs ys : List (Act κ α)) : ticks (xs ++ ys) = ticks xs + ticks ys :=
  List.countP_append

lemma ticks_cons (x : Act κ α) (xs : List (Act κ α)) : ticks (x :: xs) = ticks [x] + ticks xs := by
  rw [← ticks_append, List.singleton_append]

variable [DecidableEq κ]

@[simp] lemma run_nil (t : Table κ α) : run t [] = t := rfl

@[simp] lemma run_cons (t : Table κ α) (x : Act κ α) (xs : List (Act κ α)) :
    run t (x :: xs) = run (apply t x) xs := rfl

lemma run_append (t : Table κ α) (xs ys : List (Act κ α)) :
    run t (xs ++ ys) = run (run t xs) ys := List.foldl_append

lemma legal_append : Legal t (xs ++ ys) ↔ Legal t xs ∧ Legal (run t xs) ys := by
  induction xs generalizing t with
  | nil => simp [Legal]
  | cons x xs ih => simp only [List.cons_append, Legal, ih, run_cons, and_assoc]

/-- Dropping clients one after the other. -/
lemma run_drops (t : Table κ α) (ks : List κ) (k : κ) :
    run t (ks.map .drop) k = if k ∈ ks then none else t k := by
  induction ks generalizing t with
  | nil => simp
  | cons k' ks ih =>
      rw [List.map_cons, run_cons, ih, apply]
      by_cases hk : k = k'
      · subst hk
        simp
      · simp [hk]

lemma legal_drops (t : Table κ α) (ks : List κ) : Legal t (ks.map .drop) := by
  induction ks generalizing t with
  | nil => trivial
  | cons k ks ih => exact ⟨trivial, ih _⟩

omit [DecidableEq κ] in
lemma ticks_drops (ks : List κ) : ticks (ks.map (.drop : κ → Act κ α)) = 0 := by
  rw [ticks, List.countP_eq_zero]
  intro x hx
  obtain ⟨k, _, rfl⟩ := List.mem_map.mp hx
  exact Bool.false_ne_true

/-! ## Exclusion -/

lemma apply_tick_eq_some {l' : Lease α} (h : apply t .tick k = some l') :
    ∃ l, t k = some l ∧ 1 < l.left ∧ l' = { l with left := l.left - 1 } := by
  obtain ⟨l, hl, htick⟩ := Option.bind_eq_some_iff.mp h
  unfold Lease.tick at htick
  split_ifs at htick with hle
  exact ⟨l, hl, not_le.mp hle, (Option.some.inj htick).symm⟩

/-- **One legal act** keeps the table exclusive. -/
lemma exclusive_apply (ht : Exclusive t) {x : Act κ α} (hx : Allows t x) :
    Exclusive (apply t x) := by
  intro k₁ k₂ l₁ l₂ h₁ h₂ hitem
  cases x with
  | hold k a n =>
      obtain ⟨_, hother⟩ := hx
      -- an entry of another client that names the same thing would have made the act illegal
      have hsame : ∀ k' l', apply t (.hold k a n) k' = some l' → l'.item = a → k' = k := by
        intro k' l' h' ha
        by_contra hne
        exact hne (hother k' l' (by rwa [apply, Function.update_of_ne hne] at h') ha)
      by_cases hk₁ : k₁ = k
      · subst hk₁
        rw [apply, Function.update_self] at h₁
        obtain rfl := Option.some.inj h₁
        exact (hsame k₂ l₂ h₂ hitem.symm).symm
      · by_cases hk₂ : k₂ = k
        · subst hk₂
          rw [apply, Function.update_self] at h₂
          obtain rfl := Option.some.inj h₂
          exact hsame k₁ l₁ h₁ hitem
        · rw [apply, Function.update_of_ne hk₁] at h₁
          rw [apply, Function.update_of_ne hk₂] at h₂
          exact ht k₁ k₂ l₁ l₂ h₁ h₂ hitem
  | drop k =>
      have hkept : ∀ k' l', apply t (.drop k) k' = some l' → t k' = some l' := by
        intro k' l' h'
        by_cases hne : k' = k
        · simp [apply, hne] at h'
        · rwa [apply, Function.update_of_ne hne] at h'
      exact ht k₁ k₂ l₁ l₂ (hkept k₁ l₁ h₁) (hkept k₂ l₂ h₂) hitem
  | tick =>
      obtain ⟨l₁', h₁', _, rfl⟩ := apply_tick_eq_some h₁
      obtain ⟨l₂', h₂', _, rfl⟩ := apply_tick_eq_some h₂
      exact ht k₁ k₂ l₁' l₂' h₁' h₂' hitem

/-- **A legal run keeps the table exclusive.** -/
theorem exclusive_run (ht : Exclusive t) (hxs : Legal t xs) : Exclusive (run t xs) := by
  induction xs generalizing t with
  | nil => exact ht
  | cons x xs ih => exact ih (exclusive_apply ht hxs.1) hxs.2

/-! ## A lease is kept for its time -/

/-- An act that does not take the lease of `k` away, and that gives it at least `N` ticks, if
any. -/
def Spares (k : κ) (N : ℕ) : Act κ α → Prop
  | .hold k' _ n => k' = k → N ≤ n
  | .drop k' => k' ≠ k
  | .tick => True

lemma kept_apply {N : ℕ} {x : Act κ α} (hl : t k = some l) (hx : Allows t x) (hspares : Spares k N x)
    (hN : N ≤ l.left) (htime : ticks [x] < l.left) :
    ∃ l', apply t x k = some l' ∧ l'.item = l.item ∧ N - ticks [x] ≤ l'.left := by
  cases x with
  | hold k' a n =>
      by_cases hk : k = k'
      · subst hk
        refine ⟨⟨a, n⟩, by rw [apply, Function.update_self], (hx.1 l hl).symm, ?_⟩
        exact (Nat.sub_le _ _).trans (hspares rfl)
      · refine ⟨l, by rw [apply, Function.update_of_ne hk, hl], rfl, ?_⟩
        exact (Nat.sub_le _ _).trans hN
  | drop k' =>
      refine ⟨l, ?_, rfl, (Nat.sub_le _ _).trans hN⟩
      rw [apply, Function.update_of_ne (Ne.symm hspares), hl]
  | tick =>
      have hone : ticks [(.tick : Act κ α)] = 1 := rfl
      rw [hone] at htime ⊢
      refine ⟨{ l with left := l.left - 1 }, ?_, rfl, Nat.sub_le_sub_right hN 1⟩
      simp [apply, hl, Lease.tick, not_le.mpr htime]

/-- **A lease is kept** over a legal run that spares it and is shorter than the lease. -/
theorem kept_run {N : ℕ} (hl : t k = some l) (hxs : Legal t xs) (hspares : ∀ x ∈ xs, Spares k N x)
    (hN : N ≤ l.left) (htime : ticks xs < N) :
    ∃ l', run t xs k = some l' ∧ l'.item = l.item ∧ N - ticks xs ≤ l'.left := by
  induction xs generalizing t l N with
  | nil => exact ⟨l, hl, rfl, (Nat.sub_le _ _).trans hN⟩
  | cons x xs ih =>
      rw [ticks_cons] at htime
      obtain ⟨l₁, hl₁, hitem₁, hleft₁⟩ :=
        kept_apply hl hxs.1 (hspares x List.mem_cons_self) hN (by omega)
      have hrest : ∀ y ∈ xs, Spares k (N - ticks [x]) y := by
        intro y hy
        have hy := hspares y (List.mem_cons_of_mem x hy)
        cases y with
        | hold k' a n => exact fun hk => (Nat.sub_le _ _).trans (hy hk)
        | drop k' => exact hy
        | tick => trivial
      obtain ⟨l₂, hl₂, hitem₂, hleft₂⟩ := ih hl₁ hxs.2 hrest hleft₁ (by omega)
      refine ⟨l₂, hl₂, hitem₂.trans hitem₁, ?_⟩
      rw [ticks_cons]
      omega

/-! ## Afterwards it is gone -/

/-- The acts that do not give `k` anything. -/
def Forgets (k : κ) : Act κ α → Prop
  | .hold k' _ _ => k' ≠ k
  | .drop _ => True
  | .tick => True

lemma none_run (h : t k = none) (hforgets : ∀ x ∈ xs, Forgets k x) : run t xs k = none := by
  induction xs generalizing t with
  | nil => exact h
  | cons x xs ih =>
      refine ih ?_ fun y hy => hforgets y (List.mem_cons_of_mem x hy)
      have hx := hforgets x List.mem_cons_self
      cases x with
      | hold k' a n => rw [apply, Function.update_of_ne (Ne.symm hx), h]
      | drop k' =>
          by_cases hk : k = k'
          · rw [apply, hk, Function.update_self]
          · rw [apply, Function.update_of_ne hk, h]
      | tick => simp [apply, h]

/-- **A lease that is not prolonged is gone when its time is over.** -/
theorem expired_run (hl : t k = some l) (hforgets : ∀ x ∈ xs, Forgets k x)
    (htime : l.left ≤ ticks xs) (hpos : 0 < ticks xs) : run t xs k = none := by
  induction xs generalizing t l with
  | nil => exact absurd hpos (lt_irrefl 0)
  | cons x xs ih =>
      have hrest : ∀ y ∈ xs, Forgets k y := fun y hy => hforgets y (List.mem_cons_of_mem x hy)
      have hx := hforgets x List.mem_cons_self
      rw [ticks_cons] at htime hpos
      rw [run_cons]
      clear hforgets
      cases x with
      | hold k' a n =>
          have hone : ticks [(.hold k' a n : Act κ α)] = 0 := rfl
          refine ih (l := l) ?_ hrest (by omega) (by omega)
          rw [apply, Function.update_of_ne (Ne.symm hx), hl]
      | drop k' =>
          have hone : ticks [(.drop k' : Act κ α)] = 0 := rfl
          by_cases hk : k = k'
          · exact none_run (by rw [apply, hk, Function.update_self]) hrest
          · refine ih (l := l) ?_ hrest (by omega) (by omega)
            rw [apply, Function.update_of_ne hk, hl]
      | tick =>
          have hone : ticks [(.tick : Act κ α)] = 1 := rfl
          by_cases hle : l.left ≤ 1
          · exact none_run (by simp [apply, hl, Lease.tick, hle]) hrest
          · refine ih (l := { l with left := l.left - 1 }) ?_ hrest ?_ ?_
            · simp [apply, hl, Lease.tick, hle]
            · show l.left - 1 ≤ ticks xs
              omega
            · omega

end LeaseTable
