import Chooser.Lib.CStr

/-!
# Quoted strings in a header

A quoted string of an HTTP header ends at the first quote that no backslash escapes.  `unquote`
reads one, behind its opening quote.  Text that is put between two quotes as it is can end the
string too early, or keep it from ending: `closes_iff` says when it does neither, and
`unquote_self_iff` when it comes out as it went in.
-/

namespace QuotedString

open CStr

/-- Reads up to the closing quote: the value, and what follows.  The flag says that the byte before
was a backslash that escapes the next one. -/
def unquote : Bool → Bytes → Option (Bytes × Bytes)
  | _, [] => none
  | true, c :: s => (unquote false s).map fun r => (c :: r.1, r.2)
  | false, c :: s =>
      if c = 34 then some ([], s)
      else if c = 92 then unquote true s
      else (unquote false s).map fun r => (c :: r.1, r.2)

/-- The number of backslashes at the end of a text. -/
def slashes (s : Bytes) : ℕ := (s.reverse.takeWhile (· = 92)).length

/-- Does the end of a text escape what follows?  The flag is for what stood before it. -/
def escaped (e : Bool) (s : Bytes) : Bool := s.foldl (fun e c => !e && c == 92) e

/-- It does so with an odd number of backslashes. -/
lemma escaped_iff (s : Bytes) : escaped false s = true ↔ Odd (slashes s) := by
  induction s using List.reverseRecOn with
  | nil => simp [escaped, slashes]
  | append_singleton s c ih =>
      have hnext : escaped false (s ++ [c]) = (!escaped false s && c == 92) := by simp [escaped]
      rw [hnext]
      by_cases hc : c = 92
      · have hslashes : slashes (s ++ [c]) = slashes s + 1 := by simp [slashes, hc]
        rw [hslashes, Nat.odd_add_one, ← ih]
        simp [hc]
      · have hslashes : slashes (s ++ [c]) = 0 := by simp [slashes, hc]
        simp [hslashes, hc]

/-- All quotes of a text are escaped, and its end escapes nothing. -/
def Closed (e : Bool) (t : Bytes) : Prop :=
  (∀ a b, t = a ++ 34 :: b → escaped e a = true) ∧ escaped e t = false

lemma closed_nil (e : Bool) : Closed e [] ↔ e = false := by
  simp [Closed, escaped]

lemma closed_cons (e : Bool) (c : UInt8) (t : Bytes) :
    Closed e (c :: t) ↔ (c = 34 → e = true) ∧ Closed (!e && c == 92) t := by
  have hhead : ∀ a, escaped e (c :: a) = escaped (!e && c == 92) a := fun _ => rfl
  simp only [Closed, hhead]
  constructor
  · rintro ⟨hquotes, hend⟩
    refine ⟨fun hc => ?_, fun a b hab => ?_, hend⟩
    · exact hquotes [] t (by rw [hc]; rfl)
    · rw [← hhead]
      exact hquotes (c :: a) b (by rw [hab]; rfl)
  · rintro ⟨hc, hquotes, hend⟩
    refine ⟨fun a b hab => ?_, hend⟩
    cases a with
    | nil => exact hc (List.cons.inj hab).1
    | cons d a =>
        obtain ⟨rfl, htail⟩ := List.cons.inj hab
        rw [hhead]
        exact hquotes a b htail

/-- What follows the string does not depend on a byte in it. -/
lemma rest_cons (c : UInt8) (o : Option (Bytes × Bytes)) :
    (o.map fun r => (c :: r.1, r.2)).map Prod.snd = o.map Prod.snd := by
  rw [Option.map_map]
  rfl

lemma closes_iff_closed (t : Bytes) (e : Bool) :
    (unquote e (t ++ [34])).map Prod.snd = some [] ↔ Closed e t := by
  induction t generalizing e with
  | nil => cases e <;> simp [unquote, closed_nil]
  | cons c t ih =>
      rw [closed_cons, List.cons_append]
      cases e with
      | true => simp only [unquote, rest_cons, ih]; simp
      | false =>
          by_cases hquote : c = 34
          · simp [unquote, hquote]
          by_cases hslash : c = 92
          · simp [unquote, hslash, ih]
          · have hplain : (!false && c == 92) = false := by simp [hslash]
            rw [unquote, if_neg hquote, if_neg hslash, rest_cons, ih, hplain]
            simp [hquote]

/-- Every quote stands behind an odd number of backslashes, and the end behind an even one. -/
def QuotesEscaped (t : Bytes) : Prop :=
  (∀ a b, t = a ++ 34 :: b → Odd (slashes a)) ∧ Even (slashes t)

/-- **When the string closes at the quote behind the text**, and not before. -/
theorem closes_iff (t : Bytes) :
    (unquote false (t ++ [34])).map Prod.snd = some [] ↔ QuotesEscaped t := by
  rw [closes_iff_closed, Closed, QuotesEscaped, ← Nat.not_odd_iff_even, ← escaped_iff t,
    Bool.not_eq_true]
  simp only [escaped_iff]

/-! ## Text that comes out unchanged -/

/-- Reading takes the closing quote, and each pair for one byte. -/
lemma length_unquote {e : Bool} {s v rest : Bytes} (h : unquote e s = some (v, rest)) :
    v.length + rest.length < s.length := by
  induction s generalizing e v with
  | nil => simp [unquote] at h
  | cons c s ih =>
      have hkeep : ∀ {v}, ((unquote false s).map fun r => (c :: r.1, r.2)) = some (v, rest) →
          v.length + rest.length < (c :: s).length := by
        intro v hv
        obtain ⟨⟨u, r⟩, hu, heq⟩ := Option.map_eq_some_iff.mp hv
        obtain ⟨rfl, rfl⟩ := Prod.mk.inj heq
        have hlt : u.length + r.length < s.length := ih hu
        simp only [List.length_cons]
        omega
      cases e with
      | true => exact hkeep h
      | false =>
          rw [unquote] at h
          split_ifs at h with hquote hslash
          · obtain ⟨rfl, rfl⟩ := Prod.mk.inj (Option.some.inj h)
            simp
          · exact (ih h).trans (Nat.lt_succ_self _)
          · exact hkeep h

/-- **Text without quotes comes out as it went in** if and only if it has no backslash. -/
theorem unquote_self_iff {t : Bytes} (h : ∀ c ∈ t, c ≠ 34) :
    unquote false (t ++ [34]) = some (t, []) ↔ ∀ c ∈ t, c ≠ 92 := by
  induction t with
  | nil => simp [unquote]
  | cons c t ih =>
      have hquote : c ≠ 34 := h c (by simp)
      have hiff := ih fun d hd => h d (by simp [hd])
      rw [List.cons_append, unquote, if_neg hquote, List.forall_mem_cons]
      split_ifs with hslash
      · -- the pair makes the value shorter than the text
        refine iff_of_false (fun heq => ?_) fun hall => hall.1 hslash
        have hlt := length_unquote heq
        simp at hlt
      · rw [← hiff]
        simp [hslash, Option.map_eq_some_iff]

end QuotedString
