import Chooser.Lib.Machine

/-!
# Delta lists

A delta list keeps things in the order in which they are due.  An entry does not have the time at
which it is due, but the time that it is due after the one before it, so that time passes by
counting down the first entry alone.

What a delta list stands for is the list of the due times (`due`).  Adding an entry inserts it into
them, behind those of the same time (`due_add`); cancelling one erases it (`due_cancel`); and
waiting changes none of them (`due_elapse`).

A schedule is a delta list with a clock, and with books of what was added, what came due and what
was cancelled.  Over any run the books balance (`Balanced.run`): whatever was added has come due, at
its time and in order, or was cancelled, or is still to come.
-/

namespace DeltaList

open scoped List

/-- Something with a time: that from the entry before, in a delta list, or else a due time. -/
structure Timed (α : Type*) where
  time : ℕ
  item : α
deriving DecidableEq

variable {α : Type*}

/-- The order of two due times. -/
def Before (x y : Timed α) : Prop := x.time ≤ y.time

def StrictlyBefore (x y : Timed α) : Prop := x.time < y.time

instance : DecidableRel (@StrictlyBefore α) := fun x y => Nat.decLt x.time y.time

/-- **The due times** of a delta list, from the time `t` on. -/
def due : ℕ → List (Timed α) → List (Timed α)
  | _, [] => []
  | t, x :: l => ⟨t + x.time, x.item⟩ :: due (t + x.time) l

/-- The time until the last entry is due. -/
def total (l : List (Timed α)) : ℕ := (l.map Timed.time).sum

/-! ## The operations -/

/-- An entry that is due after the time `d`. -/
def add (d : ℕ) (a : α) : List (Timed α) → List (Timed α)
  | [] => [⟨d, a⟩]
  | x :: l =>
      if d < x.time then ⟨d, a⟩ :: ⟨x.time - d, x.item⟩ :: l else x :: add (d - x.time) a l

/-- The first entry gets the time of one that stood before it. -/
def delay (d : ℕ) : List (Timed α) → List (Timed α)
  | [] => []
  | x :: l => ⟨x.time + d, x.item⟩ :: l

/-- The first entry with this property is taken out. -/
def cancel (p : α → Bool) : List (Timed α) → List (Timed α)
  | [] => []
  | x :: l => if p x.item then delay x.time l else x :: cancel p l

/-- The time `d` passes. -/
def elapse (d : ℕ) : List (Timed α) → List (Timed α)
  | [] => []
  | x :: l => ⟨x.time - d, x.item⟩ :: l

/-- How long one can wait until the first entry is due. -/
def slack (d : ℕ) : List (Timed α) → ℕ
  | [] => d
  | x :: _ => min d x.time

/-! ## What they do to the due times -/

section Due

variable (t d : ℕ) (a : α) (p : α → Bool) (l : List (Timed α))

@[simp] lemma due_nil : due t ([] : List (Timed α)) = [] := rfl

@[simp] lemma due_cons (x : Timed α) :
    due t (x :: l) = ⟨t + x.time, x.item⟩ :: due (t + x.time) l := rfl

/-- **Adding** inserts a due time, behind those that are the same. -/
lemma due_add :
    due t (add d a l) = (due t l).orderedInsert StrictlyBefore ⟨t + d, a⟩ := by
  induction l generalizing t d with
  | nil => rfl
  | cons x l ih =>
      rw [add, due_cons]
      split_ifs with hlt
      · have hsooner : StrictlyBefore ⟨t + d, a⟩ ⟨t + x.time, x.item⟩ := Nat.add_lt_add_left hlt t
        have hsum : t + d + (x.time - d) = t + x.time := by omega
        rw [List.orderedInsert_cons_of_le _ _ hsooner]
        simp only [due_cons, hsum]
      · have hsum : t + x.time + (d - x.time) = t + d := by omega
        rw [List.orderedInsert_of_not_le _ _ (by simpa [StrictlyBefore] using hlt), due_cons, ih, hsum]

lemma due_delay : due t (delay d l) = due (t + d) l := by
  cases l with
  | nil => rfl
  | cons x l =>
      have hsum : t + (x.time + d) = t + d + x.time := by omega
      simp only [delay, due_cons, hsum]

/-- **Cancelling** erases one, and leaves the others where they are. -/
lemma due_cancel : due t (cancel p l) = (due t l).eraseP fun x => p x.item := by
  induction l generalizing t with
  | nil => rfl
  | cons x l ih =>
      rw [cancel, due_cons, List.eraseP_cons]
      cases hx : p x.item with
      | true => simp [due_delay]
      | false => simp [ih]

/-- **Waiting** changes none. -/
lemma due_elapse : due (t + slack d l) (elapse (slack d l) l) = due t l := by
  cases l with
  | nil => rfl
  | cons x l =>
      have hsum : t + slack d (x :: l) + (x.time - slack d (x :: l)) = t + x.time := by
        simp only [slack]
        omega
      simp only [elapse, due_cons, hsum]

/-- What is due is due from now on. -/
lemma le_of_mem_due {x : Timed α} (hx : x ∈ due t l) : t ≤ x.time := by
  induction l generalizing t with
  | nil => cases hx
  | cons y l ih =>
      rcases List.mem_cons.mp hx with rfl | hx
      · exact Nat.le_add_right t _
      · exact (Nat.le_add_right t _).trans (ih _ hx)

lemma pairwise_due : (due t l).Pairwise Before := by
  induction l generalizing t with
  | nil => exact List.Pairwise.nil
  | cons x l ih => exact List.pairwise_cons.mpr ⟨fun y hy => le_of_mem_due _ _ hy, ih _⟩

end Due

/-! ## The times do not grow -/

@[simp] lemma total_cons (x : Timed α) (l : List (Timed α)) : total (x :: l) = x.time + total l := rfl

lemma total_add (d : ℕ) (a : α) (l : List (Timed α)) : total (add d a l) = max d (total l) := by
  induction l generalizing d with
  | nil => simp [add, total]
  | cons x l ih =>
      rw [add]
      split_ifs with hlt
      · simp only [total_cons]
        omega
      · rw [total_cons, total_cons, ih]
        omega

lemma total_delay_le (d : ℕ) (l : List (Timed α)) : total (delay d l) ≤ d + total l := by
  cases l with
  | nil => exact Nat.zero_le _
  | cons x l =>
      simp only [delay, total_cons]
      omega

lemma total_cancel_le (p : α → Bool) (l : List (Timed α)) : total (cancel p l) ≤ total l := by
  induction l with
  | nil => exact le_rfl
  | cons x l ih =>
      rw [cancel]
      split_ifs
      · exact total_delay_le _ _
      · exact Nat.add_le_add_left ih _

lemma total_elapse_le (d : ℕ) (l : List (Timed α)) : total (elapse d l) ≤ total l := by
  cases l with
  | nil => exact le_rfl
  | cons x l =>
      simp only [elapse, total_cons]
      omega

/-! ## Schedules -/

/-- A delta list with its clock, and the books. -/
structure Schedule (α : Type*) where
  now : ℕ
  queue : List (Timed α)
  added : List (Timed α)
  fired : List (Timed α)
  cancelled : List (Timed α)

inductive Act (α : Type*) where
  | add (d : ℕ) (a : α)
  | cancel (p : α → Bool)
  | wait (d : ℕ)
  | fire

namespace Schedule

def empty : Schedule α := ⟨0, [], [], [], []⟩

/-- What is still to come, with its due times. -/
def pending (s : Schedule α) : List (Timed α) := due s.now s.queue

/-- The first entry comes due, after the time that is left. -/
def fire (s : Schedule α) : Schedule α :=
  match s.queue with
  | [] => s
  | x :: l =>
      { s with
        now := s.now + x.time
        queue := l
        fired := s.fired ++ [⟨s.now + x.time, x.item⟩] }

def step (s : Schedule α) : Act α → Schedule α
  | .add d a =>
      { s with queue := DeltaList.add d a s.queue, added := s.added ++ [⟨s.now + d, a⟩] }
  | .cancel p =>
      { s with
        queue := DeltaList.cancel p s.queue
        cancelled := s.cancelled ++ (s.pending.find? fun x => p x.item).toList }
  | .wait d =>
      { s with
        now := s.now + slack d s.queue
        queue := elapse (slack d s.queue) s.queue }
  | .fire => s.fire

/-- **The books balance.**  What was added came due, was cancelled or is still to come; what came
due did so in order, and none of it lies ahead. -/
structure Balanced (s : Schedule α) : Prop where
  account : s.added ~ s.fired ++ s.cancelled ++ s.pending
  ordered : s.fired.Pairwise Before
  past : ∀ x ∈ s.fired, x.time ≤ s.now

variable {s : Schedule α}

lemma balanced_empty : (empty : Schedule α).Balanced where
  account := List.Perm.nil
  ordered := List.Pairwise.nil
  past _ hx := absurd hx List.not_mem_nil

/-- The first entry goes from what is to come to what came due. -/
lemma Balanced.fire (h : s.Balanced) : s.fire.Balanced := by
  unfold Schedule.fire
  cases hq : s.queue with
  | nil => exact h
  | cons x l =>
      have hpending : s.pending = ⟨s.now + x.time, x.item⟩ :: due (s.now + x.time) l := by
        rw [pending, hq, due_cons]
      have haccount := h.account
      rw [hpending] at haccount
      refine ⟨haccount.trans ?_, ?_, fun y hy => ?_⟩
      · simp only [pending, List.append_assoc, List.singleton_append]
        exact (List.Perm.append_left _ List.perm_middle)
      · refine List.pairwise_append.mpr ⟨h.ordered, List.pairwise_singleton _ _, fun y hy z hz => ?_⟩
        rw [List.mem_singleton.mp hz]
        exact (h.past y hy).trans (Nat.le_add_right _ _)
      · rcases List.mem_append.mp hy with hy | hy
        · exact (h.past y hy).trans (Nat.le_add_right _ _)
        · rw [List.mem_singleton.mp hy]

/-- An entry that is cancelled goes to the books. -/
lemma perm_find?_eraseP (p : α → Bool) (l : List α) : l ~ (l.find? p).toList ++ l.eraseP p := by
  induction l with
  | nil => exact List.Perm.nil
  | cons x l ih =>
      rw [List.find?_cons, List.eraseP_cons]
      cases p x with
      | true => exact List.Perm.refl _
      | false => exact (ih.cons x).trans List.perm_middle.symm

/-- **Every act** keeps the balance. -/
lemma Balanced.step (h : s.Balanced) (x : Act α) : (s.step x).Balanced := by
  cases x with
  | add d a =>
      refine ⟨?_, h.ordered, h.past⟩
      have hpending : (s.step (.add d a)).pending
          = s.pending.orderedInsert StrictlyBefore ⟨s.now + d, a⟩ := due_add _ _ _ _
      rw [hpending]
      calc s.added ++ [⟨s.now + d, a⟩]
          _ ~ ⟨s.now + d, a⟩ :: s.added := List.perm_append_singleton _ _
          _ ~ ⟨s.now + d, a⟩ :: (s.fired ++ s.cancelled ++ s.pending) := h.account.cons _
          _ ~ s.fired ++ s.cancelled ++ ⟨s.now + d, a⟩ :: s.pending := List.perm_middle.symm
          _ ~ s.fired ++ s.cancelled ++ s.pending.orderedInsert StrictlyBefore ⟨s.now + d, a⟩ :=
            (List.perm_orderedInsert _ _ _).symm.append_left _
  | cancel p =>
      refine ⟨?_, h.ordered, h.past⟩
      have hpending : (s.step (.cancel p)).pending = s.pending.eraseP fun x => p x.item :=
        due_cancel _ _ _
      rw [hpending]
      calc s.added
          _ ~ s.fired ++ s.cancelled ++ s.pending := h.account
          _ ~ s.fired ++ s.cancelled ++ ((s.pending.find? fun x => p x.item).toList ++
                s.pending.eraseP fun x => p x.item) := (perm_find?_eraseP _ _).append_left _
          _ = s.fired ++ (s.cancelled ++ (s.pending.find? fun x => p x.item).toList) ++
                s.pending.eraseP fun x => p x.item := by simp only [List.append_assoc]
  | wait d =>
      have hpending : (s.step (.wait d)).pending = s.pending := due_elapse _ _ _
      exact ⟨hpending ▸ h.account, h.ordered, fun x hx => (h.past x hx).trans (Nat.le_add_right _ _)⟩
  | fire => exact h.fire

/-- **Over any run the books balance.** -/
theorem Balanced.run {s : Schedule α} (h : s.Balanced) (xs : List (Act α)) :
    (Machine.run Schedule.step s xs).Balanced :=
  Machine.run_invariant_of_step (fun _ x h => h.step x) h xs

end Schedule

/-! ## A periodic item

An item that is added again, for the same time, whenever it has come due, comes due in a fixed
rhythm, whatever else is on the schedule.
-/

section Periodic

variable [DecidableEq α] (i : ℕ) (a : α)

/-- The due times of one item. -/
def only (l : List (Timed α)) : List (Timed α) := l.filter fun x => x.item = a

/-- The first `k` beats. -/
def beats (k : ℕ) : List (Timed α) := (List.range k).map fun j => ⟨(j + 1) * i, a⟩

/-- **In rhythm**: `k` beats are over, and the next one is to come. -/
structure InRhythm (s : Schedule α) (k : ℕ) : Prop where
  fired : only a s.fired = beats i a k
  pending : only a s.pending = [⟨(k + 1) * i, a⟩]

/-- **On a beat**, with the next one not yet added. -/
structure OnBeat (s : Schedule α) (k : ℕ) : Prop where
  fired : only a s.fired = beats i a k
  pending : only a s.pending = []
  now : s.now = k * i

variable {i a} {k : ℕ} {s : Schedule α}

/-- The acts that are about other items. -/
def Act.Spares (a : α) : Act α → Prop
  | .add _ b => b ≠ a
  | .cancel p => p a = false
  | .wait _ => True
  | .fire => False

lemma only_cons_of_ne {x : Timed α} {l : List (Timed α)} (h : x.item ≠ a) :
    only a (x :: l) = only a l := List.filter_cons_of_neg (by simpa using h)

lemma only_cons_self (d : ℕ) (l : List (Timed α)) :
    only a (⟨d, a⟩ :: l) = ⟨d, a⟩ :: only a l := List.filter_cons_of_pos (by simp)

lemma only_orderedInsert_of_ne {x : Timed α} (l : List (Timed α)) (h : x.item ≠ a) :
    only a (l.orderedInsert StrictlyBefore x) = only a l := by
  induction l with
  | nil => exact only_cons_of_ne h
  | cons y l ih =>
      rw [List.orderedInsert_cons]
      split_ifs
      · exact only_cons_of_ne h
      · simp only [only, List.filter_cons] at ih ⊢
        rw [ih]

lemma only_orderedInsert_self {l : List (Timed α)} (d : ℕ) (h : only a l = []) :
    only a (l.orderedInsert StrictlyBefore ⟨d, a⟩) = [⟨d, a⟩] := by
  have hperm := (List.perm_orderedInsert StrictlyBefore (⟨d, a⟩ : Timed α) l).filter
    fun x => x.item = a
  refine List.perm_singleton.mp (hperm.trans ?_)
  have hcons := only_cons_self (a := a) d l
  rw [h] at hcons
  rw [show List.filter (fun x => decide (x.item = a)) (⟨d, a⟩ :: l) = [⟨d, a⟩] from hcons]

lemma only_eraseP {p : α → Bool} (l : List (Timed α)) (h : p a = false) :
    only a (l.eraseP fun x => p x.item) = only a l := by
  induction l with
  | nil => rfl
  | cons y l ih =>
      rw [List.eraseP_cons]
      by_cases hy : y.item = a
      · have hp : p y.item = false := hy ▸ h
        simp only [hp, cond_false, only, List.filter_cons] at ih ⊢
        rw [ih]
      · rw [only_cons_of_ne hy]
        cases p y.item with
        | true => rfl
        | false => exact (only_cons_of_ne hy).trans ih

/-- **Acts about other items** leave the due times of this one alone. -/
lemma only_pending_step {x : Act α} (hx : x.Spares a) :
    only a (s.step x).pending = only a s.pending ∧ (s.step x).fired = s.fired := by
  cases x with
  | add d b =>
      refine ⟨?_, rfl⟩
      have hpending : (s.step (.add d b)).pending
          = s.pending.orderedInsert StrictlyBefore ⟨s.now + d, b⟩ := due_add _ _ _ _
      have hb : (⟨s.now + d, b⟩ : Timed α).item ≠ a := hx
      rw [hpending, only_orderedInsert_of_ne _ hb]
  | cancel p =>
      refine ⟨?_, rfl⟩
      have hpending : (s.step (.cancel p)).pending = s.pending.eraseP fun x => p x.item :=
        due_cancel _ _ _
      rw [hpending, only_eraseP _ hx]
  | wait d =>
      have hpending : (s.step (.wait d)).pending = s.pending := due_elapse _ _ _
      exact ⟨congrArg _ hpending, rfl⟩
  | fire => exact hx.elim

lemma InRhythm.step (h : InRhythm i a s k) {x : Act α} (hx : x.Spares a) :
    InRhythm i a (s.step x) k := by
  obtain ⟨hpending, hfired⟩ := only_pending_step hx
  exact ⟨by rw [hfired, h.fired], by rw [hpending, h.pending]⟩

/-- When another item comes due, the due times of this one stay. -/
lemma only_fire_of_ne {x : Timed α} {l : List (Timed α)} (hq : s.queue = x :: l) (hx : x.item ≠ a) :
    only a s.fire.pending = only a s.pending ∧ only a s.fire.fired = only a s.fired := by
  have hitem : (⟨s.now + x.time, x.item⟩ : Timed α).item ≠ a := hx
  constructor
  · simp only [Schedule.fire, hq, Schedule.pending]
    rw [due_cons, only_cons_of_ne hitem]
  · simp only [Schedule.fire, hq, only, List.filter_append]
    rw [List.filter_cons_of_neg (by simpa using hx), List.filter_nil, List.append_nil]

/-- When the item comes due, its first due time is over. -/
lemma only_fire_self {d : ℕ} {l : List (Timed α)} (hq : s.queue = ⟨d, a⟩ :: l) :
    only a s.pending = ⟨s.fire.now, a⟩ :: only a s.fire.pending ∧
      only a s.fire.fired = only a s.fired ++ [⟨s.fire.now, a⟩] := by
  constructor
  · simp only [Schedule.fire, hq, Schedule.pending]
    rw [due_cons, only_cons_self]
  · simp only [Schedule.fire, hq, only, List.filter_append]
    rw [List.filter_cons_of_pos (by simp), List.filter_nil]

/-- **Another item comes due.** -/
lemma InRhythm.fire_other (h : InRhythm i a s k) {x : Timed α} {l : List (Timed α)}
    (hq : s.queue = x :: l) (hx : x.item ≠ a) : InRhythm i a s.fire k := by
  obtain ⟨hpending, hfired⟩ := only_fire_of_ne hq hx
  exact ⟨by rw [hfired, h.fired], by rw [hpending, h.pending]⟩

/-- **The item itself comes due**: this is the next beat. -/
lemma InRhythm.fire_self (h : InRhythm i a s k) {d : ℕ} {l : List (Timed α)}
    (hq : s.queue = ⟨d, a⟩ :: l) : OnBeat i a s.fire (k + 1) := by
  obtain ⟨hpending, hfired⟩ := only_fire_self hq
  rw [h.pending] at hpending
  obtain ⟨hfirst, hrest⟩ := List.cons.inj hpending
  have hnow : s.fire.now = (k + 1) * i := (congrArg Timed.time hfirst).symm
  refine ⟨?_, hrest.symm, hnow⟩
  rw [hfired, h.fired, hnow, beats, beats, List.range_succ, List.map_append]
  rfl

omit [DecidableEq α] in
lemma now_step {x : Act α} (hx : x.Spares a) (hwait : ∀ d, x ≠ .wait d) :
    (s.step x).now = s.now := by
  cases x with
  | add d b => rfl
  | cancel p => rfl
  | wait d => exact absurd rfl (hwait d)
  | fire => exact hx.elim

lemma OnBeat.step (h : OnBeat i a s k) {x : Act α} (hx : x.Spares a) (hwait : ∀ d, x ≠ .wait d) :
    OnBeat i a (s.step x) k := by
  obtain ⟨hpending, hfired⟩ := only_pending_step hx
  exact ⟨by rw [hfired, h.fired], by rw [hpending, h.pending], (now_step hx hwait).trans h.now⟩

/-- **The item is added again.** -/
lemma OnBeat.again (h : OnBeat i a s k) : InRhythm i a (s.step (.add i a)) k := by
  refine ⟨h.fired, ?_⟩
  have hpending : (s.step (.add i a)).pending
      = s.pending.orderedInsert StrictlyBefore ⟨s.now + i, a⟩ := due_add _ _ _ _
  rw [hpending, only_orderedInsert_self _ h.pending, h.now, Nat.succ_mul]

/-- The clock is between two beats. -/
lemma InRhythm.now_bounds (h : InRhythm i a s k) (hs : s.Balanced) :
    k * i ≤ s.now ∧ s.now ≤ (k + 1) * i := by
  constructor
  · cases k with
    | zero => simp
    | succ k =>
        have hmem : (⟨(k + 1) * i, a⟩ : Timed α) ∈ only a s.fired := by
          rw [h.fired, beats, List.range_succ, List.map_append]
          exact List.mem_append_right _ List.mem_cons_self
        exact hs.past _ (List.mem_of_mem_filter hmem)
  · have hmem : (⟨(k + 1) * i, a⟩ : Timed α) ∈ only a s.pending := by
      rw [h.pending]
      exact List.mem_cons_self
    exact le_of_mem_due _ _ (List.mem_of_mem_filter hmem)

end Periodic

end DeltaList
