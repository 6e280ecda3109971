import Mathlib
import Chooser.Lib.CStr

/-!
# Items with a type, a length and a payload

Many formats are sequences of items, each of which is a byte that says what it is, a byte that says
how long it is, and that many bytes.  A byte of its own ends the sequence.  The reader here goes
from item to item through memory, as C code does: it knows where the memory it may look at ends,
but not whether the last item fits (`walk`).

On a sequence that was written by `encode`, the walk is a fold over the items (`walk_encode`), and
collecting them gives the sequence back (`decode_encode`).
-/

namespace Tlv

open CStr

/-- An item.  Its length has to fit into one byte. -/
structure Item where
  code : UInt8
  payload : Bytes
  short : payload.length < 256
deriving DecidableEq

/-- An item as it is written. -/
def Item.bytes (x : Item) : Bytes := x.code :: UInt8.ofNat x.payload.length :: x.payload

def encode (xs : List Item) : Bytes := xs.flatMap Item.bytes

@[simp] lemma encode_nil : encode [] = [] := rfl

@[simp] lemma encode_cons (x : Item) (xs : List Item) :
    encode (x :: xs) = x.bytes ++ encode xs := rfl

@[simp] lemma encode_append (xs ys : List Item) : encode (xs ++ ys) = encode xs ++ encode ys :=
  List.flatMap_append

@[simp] lemma Item.length_bytes (x : Item) : x.bytes.length = x.payload.length + 2 := rfl

/-! ## Memory -/

/-- From `pos` on, the memory holds `b`. -/
def Holds (mem : ℕ → UInt8) (pos : ℕ) (b : Bytes) : Prop :=
  ∀ i x, b[i]? = some x → mem (pos + i) = x

variable {mem : ℕ → UInt8} {pos : ℕ}

lemma Holds.left {a b : Bytes} (h : Holds mem pos (a ++ b)) : Holds mem pos a := by
  intro i x hi
  refine h i x ?_
  rw [List.getElem?_append_left (List.getElem?_eq_some_iff.mp hi).1, hi]

lemma Holds.right {a b : Bytes} (h : Holds mem pos (a ++ b)) : Holds mem (pos + a.length) b := by
  intro i x hi
  have hmem := h (a.length + i) x (by rw [List.getElem?_append_right (by omega)]; simpa using hi)
  rw [← hmem, Nat.add_assoc]

lemma holds_getD (b rest : Bytes) : Holds (fun i => (b ++ rest).getD i 0) 0 b := by
  intro i x hi
  have hlt := (List.getElem?_eq_some_iff.mp hi).1
  show (b ++ rest).getD (0 + i) 0 = x
  rw [List.getD_eq_getElem?_getD, Nat.zero_add, List.getElem?_append_left hlt, hi,
    Option.getD_some]

lemma Holds.code {x : Item} (h : Holds mem pos x.bytes) : mem pos = x.code := h 0 _ rfl

lemma Holds.length {x : Item} (h : Holds mem pos x.bytes) :
    (mem (pos + 1)).toNat = x.payload.length := by
  rw [h 1 _ rfl, UInt8.toNat_ofNat', Nat.mod_eq_of_lt x.short]

lemma Holds.payload {x : Item} (h : Holds mem pos x.bytes) {i : ℕ} {c : UInt8}
    (hi : x.payload[i]? = some c) : mem (pos + 2 + i) = c := by
  have hmem := h (i + 2) c hi
  rw [← hmem]
  congr 1
  omega

/-! ## The walk -/

variable {σ : Type*}

/-- From item to item, from `pos` on, until `fin` or an item `stop`.  `f` is what the item at a
position does. -/
def walk (stop : UInt8) (mem : ℕ → UInt8) (f : σ → ℕ → σ) (fin : ℕ) : ℕ → ℕ → σ → σ
  | 0, _, s => s
  | fuel + 1, pos, s =>
      if fin ≤ pos then s
      else if mem pos = stop then s
      else walk stop mem f fin fuel (pos + (mem (pos + 1)).toNat + 2) (f s pos)

variable {stop : UInt8} {f : σ → ℕ → σ} {fin : ℕ}

/-- **The invariant rule**: what every item before `fin` preserves, the walk preserves. -/
lemma walk_inv {P : σ → Prop} (hf : ∀ s p, p < fin → P s → P (f s p)) (fuel pos : ℕ) {s : σ}
    (hs : P s) : P (walk stop mem f fin fuel pos s) := by
  induction fuel generalizing pos s with
  | zero => exact hs
  | succ n ih =>
      rw [walk]
      split_ifs with hpos hstop
      · exact hs
      · exact hs
      · exact ih _ (hf s pos (by omega) hs)

/-- A part of the state that is changed by itself is walked by itself. -/
lemma walk_map {τ : Type*} (φ : σ → τ) {g : τ → ℕ → τ} (hf : ∀ s p, φ (f s p) = g (φ s) p)
    (fuel pos : ℕ) (s : σ) :
    φ (walk stop mem f fin fuel pos s) = walk stop mem g fin fuel pos (φ s) := by
  induction fuel generalizing pos s with
  | zero => rfl
  | succ n ih =>
      rw [walk, walk]
      split_ifs with hpos hstop
      · rfl
      · rfl
      · rw [ih, hf]

/-- The walk looks at the codes and the lengths of items that begin before `fin`. -/
lemma walk_congr {mem' : ℕ → UInt8} {f' : σ → ℕ → σ} (hmem : ∀ i, i ≤ fin → mem i = mem' i)
    (hf : ∀ s p, p < fin → f s p = f' s p) (fuel pos : ℕ) (s : σ) :
    walk stop mem f fin fuel pos s = walk stop mem' f' fin fuel pos s := by
  induction fuel generalizing pos s with
  | zero => rfl
  | succ n ih =>
      rw [walk, walk]
      split_ifs with hpos hstop hstop' hstop'
      · rfl
      · rfl
      · exact absurd ((hmem pos (by omega)).symm.trans hstop) hstop'
      · exact absurd ((hmem pos (by omega)).trans hstop') hstop
      · rw [hmem (pos + 1) (by omega), hf s pos (by omega)]
        exact ih _ _

/-- **On a written sequence the walk is a fold over its items**, if the effect of an item depends on
what it is and not on where it lies. -/
theorem walk_encode {g : σ → Item → σ} {xs : List Item} {fuel : ℕ} (s : σ)
    (hmem : Holds mem pos (encode xs)) (hcode : ∀ x ∈ xs, x.code ≠ stop)
    (hfin : pos + (encode xs).length ≤ fin)
    (hend : fin ≤ pos + (encode xs).length ∨ mem (pos + (encode xs).length) = stop)
    (hfuel : fin ≤ pos + fuel)
    (hf : ∀ s p, ∀ x ∈ xs, Holds mem p x.bytes → f s p = g s x) :
    walk stop mem f fin fuel pos s = xs.foldl g s := by
  induction xs generalizing pos fuel s with
  | nil =>
      cases fuel with
      | zero => rfl
      | succ n =>
          rw [walk, List.foldl_nil]
          rcases hend with hle | hstop
          · rw [if_pos (by simpa using hle)]
          · rw [if_pos (show mem pos = stop by simpa using hstop), ite_self]
  | cons x xs ih =>
      have hx : Holds mem pos x.bytes := hmem.left
      have hlen : (encode (x :: xs)).length = x.payload.length + 2 + (encode xs).length := by
        rw [encode_cons, List.length_append, x.length_bytes]
      have hnext : pos + (mem (pos + 1)).toNat + 2 = pos + x.bytes.length := by
        rw [hx.length, x.length_bytes]
        omega
      rw [hlen] at hfin hend
      obtain ⟨n, rfl⟩ : ∃ n, fuel = n + 1 := ⟨fuel - 1, by omega⟩
      rw [walk, if_neg (by omega), if_neg (by rw [hx.code]; exact hcode x List.mem_cons_self),
        hnext, hf s pos x List.mem_cons_self hx, List.foldl_cons]
      have hpos : pos + x.bytes.length + (encode xs).length
          = pos + (x.payload.length + 2 + (encode xs).length) := by
        rw [x.length_bytes]
        omega
      exact ih _ hmem.right (fun y hy => hcode y (List.mem_cons_of_mem x hy)) (by omega)
        (by rwa [hpos]) (by rw [x.length_bytes]; omega)
        fun s p y hy => hf s p y (List.mem_cons_of_mem x hy)

/-! ## Decoding -/

/-- The item at a position. -/
def itemAt (mem : ℕ → UInt8) (pos : ℕ) : Item where
  code := mem pos
  payload := (List.range (mem (pos + 1)).toNat).map fun i => mem (pos + 2 + i)
  short := by simpa using (mem (pos + 1)).toNat_lt

/-- The items of a sequence of bytes. -/
def decode (stop : UInt8) (b : Bytes) : List Item :=
  walk stop (fun i => b.getD i 0) (fun xs pos => xs ++ [itemAt (fun i => b.getD i 0) pos])
    b.length b.length 0 []

lemma itemAt_eq {x : Item} (h : Holds mem pos x.bytes) : itemAt mem pos = x := by
  have hpayload : (List.range (mem (pos + 1)).toNat).map (fun i => mem (pos + 2 + i))
      = x.payload := by
    refine List.ext_getElem (by simp [h.length]) fun i hi hi' => ?_
    rw [List.getElem_map, List.getElem_range]
    exact h.payload (List.getElem?_eq_getElem hi')
  cases x with
  | mk code payload short =>
      simp only [itemAt, Item.mk.injEq]
      exact ⟨h.code, hpayload⟩

lemma foldl_collect (xs ys : List Item) : xs.foldl (fun ys y => ys ++ [y]) ys = ys ++ xs := by
  induction xs generalizing ys with
  | nil => simp
  | cons x xs ih => rw [List.foldl_cons, ih, List.append_assoc, List.singleton_append]

/-- **What was written is read back**, whatever follows the end. -/
theorem decode_encode {xs : List Item} (hcode : ∀ x ∈ xs, x.code ≠ stop) (rest : Bytes) :
    decode stop (encode xs ++ stop :: rest) = xs := by
  have hlen : (encode xs ++ stop :: rest).length = (encode xs).length + (rest.length + 1) := by
    rw [List.length_append, List.length_cons]
  have hstop : (encode xs ++ stop :: rest).getD (0 + (encode xs).length) 0 = stop := by
    rw [List.getD_eq_getElem?_getD, Nat.zero_add, List.getElem?_append_right le_rfl]
    simp
  rw [decode, walk_encode (g := fun ys y => ys ++ [y]) [] (holds_getD _ _) hcode (by omega)
    (Or.inr hstop) (by omega) fun ys p x _ hx => by rw [itemAt_eq hx]]
  rw [foldl_collect, List.nil_append]

end Tlv
