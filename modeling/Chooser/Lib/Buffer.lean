import Chooser.Lib.CStr

/-!
# Writing into a buffer, byte by byte

C code fills a buffer with stores, and a store outside the buffer is what must not happen.  Here it
is `none` (`store`).  A sequence of stores that stays inside is one copy (`storeAll_eq`), and
behind a copy that ends in a NUL the buffer holds the string that was copied (`cString_terminated`).
-/

namespace Buffer

open CStr

/-- `b[i]=c`. -/
def store (b : Bytes) (i : ℤ) (c : UInt8) : Option Bytes :=
  if 0 ≤ i ∧ i < b.length then some (b.set i.toNat c) else none

/-- The bytes `cs`, stored one after the other from `b[i]` on. -/
def storeAll (b : Bytes) (i : ℤ) : Bytes → Option Bytes
  | [] => some b
  | c :: cs => (store b i c).bind fun b => storeAll b (i + 1) cs

/-- `strcpy(&b[i], s)`, and `sprintf` of the text `s`. -/
def strcpy (b : Bytes) (i : ℤ) (s : Bytes) : Option Bytes := storeAll b i (cString s ++ [0])

lemma store_eq {b : Bytes} {i : ℕ} (c : UInt8) (h : i < b.length) :
    store b i c = some (memcpy b i [c]) := by
  have hin : (0 : ℤ) ≤ i ∧ (i : ℤ) < b.length := by omega
  rw [store, if_pos hin, Int.toNat_natCast, List.set_eq_take_append_cons_drop, if_pos h, memcpy]
  simp

lemma storeAll_append (b : Bytes) (i : ℤ) (xs ys : Bytes) :
    storeAll b i (xs ++ ys)
      = (storeAll b i xs).bind fun b => storeAll b (i + (xs.length : ℕ)) ys := by
  induction xs generalizing b i with
  | nil => simp [storeAll]
  | cons x xs ih =>
      rw [List.cons_append, storeAll, storeAll, Option.bind_assoc]
      refine congrArg _ (funext fun b => ?_)
      rw [ih, List.length_cons, Nat.cast_succ, Int.add_assoc, Int.add_comm 1]

/-- **Stores that stay inside the buffer are one copy.** -/
theorem storeAll_eq {b cs : Bytes} {i : ℕ} (h : i + cs.length ≤ b.length) :
    storeAll b i cs = some (memcpy b i cs) := by
  induction cs generalizing b i with
  | nil => rw [storeAll, memcpy_nil]
  | cons c cs ih =>
      rw [List.length_cons] at h
      have hone : i + [c].length ≤ b.length := by
        rw [List.length_singleton]
        omega
      have hrest : (i + 1) + cs.length ≤ (memcpy b i [c]).length := by
        rw [length_memcpy hone]
        omega
      have hnext := ih hrest
      rw [storeAll, store_eq c (by omega), Option.bind_some]
      rw [Nat.cast_add, Nat.cast_one] at hnext
      rw [hnext, ← List.length_singleton (a := c), memcpy_memcpy (by omega)]
      rfl

/-- A string that fits with its NUL is copied. -/
lemma strcpy_eq {b s : Bytes} {i : ℕ} (hs : ∀ c ∈ s, c ≠ 0) (h : i + s.length < b.length) :
    strcpy b i s = some (memcpy b i (s ++ [0])) := by
  have hin : i + (s ++ [0]).length ≤ b.length := by
    rw [List.length_append, List.length_singleton]
    omega
  rw [strcpy, cString_of_nul_free hs, storeAll_eq hin]

lemma memcpy_terminated_drop {b s : Bytes} {n : ℕ} (hn : s.length < n) :
    (memcpy b 0 (s ++ [0])).drop n = b.drop n := by
  have hlen : (s ++ [0]).length ≤ n := by
    rw [List.length_append, List.length_singleton]
    omega
  rw [memcpy, List.take_zero, List.nil_append, List.drop_append, List.drop_eq_nil_of_le hlen,
    List.nil_append, List.drop_drop]
  congr 1
  omega

/-- **The string that a copy with its NUL leaves**, whatever the buffer held. -/
theorem cString_terminated {b s : Bytes} (hs : ∀ c ∈ s, c ≠ 0) :
    cString (memcpy b 0 (s ++ [0])) = s := by
  have hall : s.takeWhile (· ≠ 0) = s := cString_of_nul_free hs
  rw [memcpy, List.take_zero, List.nil_append, List.append_assoc, cString, List.takeWhile_append,
    if_pos (by rw [hall])]
  simp

/-- A copy to the same place, and not shorter, is the one that counts. -/
lemma memcpy_over {b u t : Bytes} {i : ℕ} (hi : i ≤ b.length) (h : u.length ≤ t.length) :
    memcpy (memcpy b i u) i t = memcpy b i t := by
  have htake : (memcpy b i u).take i = b.take i := by
    have hlen : (b.take i).length = i := List.length_take_of_le hi
    rw [memcpy, List.append_assoc, List.take_left' hlen]
  have hdrop : (memcpy b i u).drop (i + t.length) = b.drop (i + t.length) := by
    have hlen : (b.take i ++ u).length = i + u.length := by simp [hi]
    rw [memcpy, List.drop_append, List.drop_eq_nil_of_le (by omega), List.nil_append,
      List.drop_drop, hlen]
    congr 1
    omega
  rw [memcpy, htake, hdrop, memcpy]

/-- **Writing on at the NUL** of a string in the buffer. -/
theorem storeAll_behind {b s t : Bytes} (ht : t ≠ []) (h : s.length + t.length ≤ b.length) :
    storeAll (memcpy b 0 (s ++ [0])) (s.length : ℕ) t = some (memcpy b 0 (s ++ t)) := by
  have hpos : [(0 : UInt8)].length ≤ t.length := List.length_pos_iff.mpr ht
  have hs : (memcpy b 0 s).length = b.length := length_memcpy (by omega)
  have hsplit : ∀ t, memcpy (memcpy b 0 s) s.length t = memcpy b 0 (s ++ t) := by
    intro t
    have hadd : memcpy (memcpy b 0 s) (0 + s.length) t = memcpy b 0 (s ++ t) :=
      memcpy_memcpy (Nat.zero_le _)
    rwa [Nat.zero_add] at hadd
  have hnul : (memcpy b 0 (s ++ [0])).length = b.length := by
    rw [← hsplit, length_memcpy (by omega), hs]
  rw [storeAll_eq (by omega), ← hsplit [0], memcpy_over (by omega) hpos, hsplit]

end Buffer
