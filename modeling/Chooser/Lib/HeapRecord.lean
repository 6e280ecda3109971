import Mathlib

/-!
# One record on the heap

A program that allocates one record can go wrong in three ways: it touches the record before it is
allocated or after it has been released, it releases it twice, or it loses it.  The first two are a
fault here (`none`), as is a second allocation, which would lose the first record.  The third shows
at the end: the record is still live (`Settled`).
-/

/-- The record: its contents while it is live. -/
inductive HeapRecord (δ : Type*) where
  | unallocated
  | live (v : δ)
  | released
deriving DecidableEq, Repr

namespace HeapRecord

variable {δ : Type*}

/-- Allocates the record. -/
def calloc : HeapRecord δ → δ → Option (HeapRecord δ)
  | unallocated, v => some (live v)
  | live _, _ => none
  | released, _ => none

/-- Reads the record. -/
def read : HeapRecord δ → Option δ
  | unallocated => none
  | live v => some v
  | released => none

/-- Writes the record. -/
def write : HeapRecord δ → δ → Option (HeapRecord δ)
  | unallocated, _ => none
  | live _, v => some (live v)
  | released, _ => none

/-- Releases the record. -/
def free : HeapRecord δ → Option (HeapRecord δ)
  | unallocated => none
  | live _ => some released
  | released => none

/-- Nothing is lost if the program stops here: the record has been released, or there was none. -/
def Settled : HeapRecord δ → Prop
  | unallocated => True
  | live _ => False
  | released => True

@[simp] lemma calloc_unallocated (v : δ) : (unallocated : HeapRecord δ).calloc v = some (live v) :=
  rfl

@[simp] lemma read_live (v : δ) : (live v).read = some v := rfl

@[simp] lemma write_live (v w : δ) : (live v).write w = some (live w) := rfl

@[simp] lemma free_live (v : δ) : (live v).free = some released := rfl

@[simp] lemma settled_unallocated : (unallocated : HeapRecord δ).Settled := trivial

@[simp] lemma not_settled_live (v : δ) : ¬ (live v).Settled := id

@[simp] lemma settled_released : (released : HeapRecord δ).Settled := trivial

end HeapRecord
