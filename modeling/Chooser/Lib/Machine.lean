import Mathlib

/-!
# Runs of a deterministic machine

A machine is a step function `S → E → S`.  Three things are said about it here, in general:

* **Properties of every step of a run** (`AllSteps`), with the one induction that proves them:
  an invariant that every step preserves, as long as the steps so far met a condition
  (`AllSteps.of_invariant`).
* **Runs with an output at each step** (`Emits`).
* **Machines that read a stream in buffers** (`Splittable`): feeding the concatenation is feeding
  the pieces, so what the machine does cannot depend on where the stream was cut
  (`Splittable.append`).
-/

namespace Machine

variable {S E α : Type*}

/-! ## Runs -/

section Runs

variable (step : S → E → S)

/-- The state after a sequence of events. -/
def run (s : S) (es : List E) : S := es.foldl step s

@[simp] lemma run_nil (s : S) : run step s [] = s := rfl

@[simp] lemma run_cons (s : S) (e : E) (es : List E) :
    run step s (e :: es) = run step (step s e) es := rfl

/-- `P` holds of every step of the run: of the state it starts in and of its event. -/
def AllSteps (P : S → E → Prop) : S → List E → Prop
  | _, [] => True
  | s, e :: es => P s e ∧ AllSteps P (step s e) es

variable {step}

lemma allSteps_append {P : S → E → Prop} {s : S} {es es' : List E} :
    AllSteps step P s (es ++ es') ↔ AllSteps step P s es ∧ AllSteps step P (run step s es) es' := by
  induction es generalizing s with
  | nil => simp [AllSteps]
  | cons e es ih => simp [AllSteps, ih, and_assoc]

/-- **The invariant rule, for the steps.**  If every step that starts in the invariant and meets
the condition has the property and ends in the invariant, then every step of a run that starts in
the invariant and meets the condition throughout has the property. -/
theorem AllSteps.of_invariant {Inv : S → Prop} {Cond P : S → E → Prop}
    (hstep : ∀ s e, Inv s → Cond s e → P s e ∧ Inv (step s e)) {s : S} {es : List E}
    (hs : Inv s) (hc : AllSteps step Cond s es) : AllSteps step P s es := by
  induction es generalizing s with
  | nil => trivial
  | cons e es ih =>
      obtain ⟨hp, hinv⟩ := hstep s e hs hc.1
      exact ⟨hp, ih hinv hc.2⟩

/-- **The invariant rule, for the state reached.** -/
theorem run_invariant {Inv : S → Prop} {Cond : S → E → Prop}
    (hstep : ∀ s e, Inv s → Cond s e → Inv (step s e)) {s : S} {es : List E}
    (hs : Inv s) (hc : AllSteps step Cond s es) : Inv (run step s es) := by
  induction es generalizing s with
  | nil => exact hs
  | cons e es ih => exact ih (hstep s e hs hc.1) hc.2

/-- **The invariant rule**, for a machine that keeps it in every step. -/
theorem run_invariant_of_step {Inv : S → Prop} (hstep : ∀ s e, Inv s → Inv (step s e)) {s : S}
    (hs : Inv s) (es : List E) : Inv (run step s es) := by
  induction es generalizing s with
  | nil => exact hs
  | cons e es ih => exact ih (hstep s e hs)

/-- Two properties that agree on every step agree on every run. -/
theorem AllSteps.congr {P Q : S → E → Prop} (hPQ : ∀ s e, P s e ↔ Q s e) {s : S} (es : List E) :
    AllSteps step P s es ↔ AllSteps step Q s es := by
  induction es generalizing s with
  | nil => exact Iff.rfl
  | cons e es ih => exact and_congr (hPQ s e) ih

/-- A run in which each step has an output, related to it by `R`. -/
inductive Emits {O : Type*} (step : S → E → S) (R : S → E → O → Prop) :
    S → List E → List O → Prop
  | nil (s : S) : Emits step R s [] []
  | cons {s : S} {e : E} {o : O} {es : List E} {os : List O} (h : R s e o)
      (hrest : Emits step R (step s e) es os) : Emits step R s (e :: es) (o :: os)

end Runs

/-! ## Streams read in buffers -/

/-- A machine that takes its input in buffers of any size, and for which, in the states `Inv`, one
element and then the rest is the same as both together. -/
structure Splittable (Inv : S → Prop) (feed : S → List α → S) : Prop where
  nil : ∀ s, feed s [] = s
  inv : ∀ {s} xs, Inv s → Inv (feed s xs)
  cons : ∀ {s} x xs, Inv s → feed s (x :: xs) = feed (feed s [x]) xs

namespace Splittable

variable {Inv : S → Prop} {feed : S → List α → S}

/-- Two buffers are as good as their concatenation. -/
theorem append (h : Splittable Inv feed) {s : S} (hs : Inv s) (xs ys : List α) :
    feed s (xs ++ ys) = feed (feed s xs) ys := by
  induction xs generalizing s with
  | nil => simp [h.nil]
  | cons x xs ih =>
      rw [List.cons_append, h.cons x (xs ++ ys) hs, ih (h.inv [x] hs), ← h.cons x xs hs]

end Splittable

end Machine
