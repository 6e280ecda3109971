import Mathlib
import Chooser.Lib.CStr

/-!
# Addresses of the access point

An address is the 32-bit word whose bytes in memory are its four numbers.  The processor is
little-endian, so the *last* number of the address weighs most when two such words are compared,
which is what the address server does.  Within one network of 256 addresses this is the order of
the last numbers (`lt_iff_octet_lt`), and swapping the bytes, adding one and swapping them back goes
to the next address there (`net_nextAddr`, `octet_nextAddr`).
-/

namespace Chooser

open CStr

/-- An address as it lies in memory. -/
abbrev Ip4 := UInt32

/-- Swap the bytes of a word. -/
def lwipHtonl (n : UInt32) : UInt32 :=
  ((n &&& 0xff) <<< 24) ||| ((n &&& 0xff00) <<< 8) ||| ((n &&& 0xff0000) >>> 8) |||
    ((n &&& 0xff000000) >>> 24)

namespace Ip4

/-- The four numbers of an address, in the order in which they are written. -/
def bytes (a : Ip4) : Bytes :=
  [a.toUInt8, (a >>> 8).toUInt8, (a >>> 16).toUInt8, (a >>> 24).toUInt8]

/-- The address with these four numbers. -/
def ofBytes (b₁ b₂ b₃ b₄ : UInt8) : Ip4 :=
  b₁.toUInt32 ||| (b₂.toUInt32 <<< 8) ||| (b₃.toUInt32 <<< 16) ||| (b₄.toUInt32 <<< 24)

/-- The last number of an address. -/
def octet (a : Ip4) : ℕ := a.toNat / 2 ^ 24

/-- The first three numbers of an address. -/
def net (a : Ip4) : ℕ := a.toNat % 2 ^ 24

/-- The next address, as the server computes it. -/
def nextAddr (a : Ip4) : Ip4 := lwipHtonl (lwipHtonl a + 1)

/-! ## Swapping the bytes -/

/-- A mask of one byte takes out this byte. -/
lemma and_byteMask (n i : ℕ) : n &&& 255 * 2 ^ i = n / 2 ^ i % 256 * 2 ^ i := by
  have hmask : 255 * 2 ^ i = 255 <<< i := (Nat.shiftLeft_eq _ _).symm
  have hbyte : n / 2 ^ i % 256 * 2 ^ i = (n >>> i &&& 255) <<< i := by
    rw [Nat.shiftLeft_eq, Nat.shiftRight_eq_div_pow]
    exact congrArg (· * 2 ^ i) (Nat.and_two_pow_sub_one_eq_mod _ 8).symm
  rw [hmask, hbyte]
  refine Nat.eq_of_testBit_eq fun k => ?_
  by_cases hk : i ≤ k <;> simp [hk]

/-- The bytes of the swapped word are those of the word, backwards. -/
lemma toNat_lwipHtonl (n : UInt32) :
    (lwipHtonl n).toNat = n.toNat % 256 * 2 ^ 24 + n.toNat / 2 ^ 8 % 256 * 2 ^ 16 +
      n.toNat / 2 ^ 16 % 256 * 2 ^ 8 + n.toNat / 2 ^ 24 := by
  have hn := n.toNat_lt
  have h0 : n.toNat &&& 255 = n.toNat % 256 := Nat.and_two_pow_sub_one_eq_mod n.toNat 8
  have h1 : n.toNat &&& 65280 = n.toNat / 2 ^ 8 % 256 * 2 ^ 8 := and_byteMask _ 8
  have h2 : n.toNat &&& 16711680 = n.toNat / 2 ^ 16 % 256 * 2 ^ 16 := and_byteMask _ 16
  have h3 : n.toNat &&& 4278190080 = n.toNat / 2 ^ 24 % 256 * 2 ^ 24 := and_byteMask _ 24
  have p0 : ((n &&& 0xff) <<< 24).toNat = 2 ^ 24 * (n.toNat % 256) := by
    simp [h0, Nat.shiftLeft_eq]
    omega
  have p1 : ((n &&& 0xff00) <<< 8).toNat = 2 ^ 16 * (n.toNat / 2 ^ 8 % 256) := by
    simp [h1, Nat.shiftLeft_eq]
    omega
  have p2 : ((n &&& 0xff0000) >>> 8).toNat = 2 ^ 8 * (n.toNat / 2 ^ 16 % 256) := by
    simp [h2, Nat.shiftRight_eq_div_pow]
    omega
  have p3 : ((n &&& 0xff000000) >>> 24).toNat = n.toNat / 2 ^ 24 := by
    simp [h3, Nat.shiftRight_eq_div_pow]
    omega
  -- each byte fits below the ones before it, so the words are added
  have or_add : ∀ k a b, b < 2 ^ k → 2 ^ k * a ||| b = 2 ^ k * a + b :=
    fun k a b hb => (Nat.two_pow_add_eq_or_of_lt hb a).symm
  have q1 : 2 ^ 24 * (n.toNat % 256) ||| 2 ^ 16 * (n.toNat / 2 ^ 8 % 256) =
      2 ^ 16 * (2 ^ 8 * (n.toNat % 256) + n.toNat / 2 ^ 8 % 256) := by
    rw [or_add 24 _ _ (by omega)]
    omega
  have q2 : 2 ^ 16 * (2 ^ 8 * (n.toNat % 256) + n.toNat / 2 ^ 8 % 256) |||
      2 ^ 8 * (n.toNat / 2 ^ 16 % 256) =
      2 ^ 8 * (2 ^ 16 * (n.toNat % 256) + 2 ^ 8 * (n.toNat / 2 ^ 8 % 256) +
        n.toNat / 2 ^ 16 % 256) := by
    rw [or_add 16 _ _ (by omega)]
    omega
  rw [lwipHtonl, UInt32.toNat_or, UInt32.toNat_or, UInt32.toNat_or, p0, p1, p2, p3, q1, q2,
    or_add 8 _ _ (by omega)]
  omega

/-- A word is the number that its bytes make, least significant first. -/
structure IsWord (n : UInt32) (b₀ b₁ b₂ b₃ : ℕ) : Prop where
  lt₀ : b₀ < 256
  lt₁ : b₁ < 256
  lt₂ : b₂ < 256
  lt₃ : b₃ < 256
  eq : n.toNat = b₀ + 2 ^ 8 * b₁ + 2 ^ 16 * b₂ + 2 ^ 24 * b₃

lemma exists_isWord (n : UInt32) : ∃ b₀ b₁ b₂ b₃, IsWord n b₀ b₁ b₂ b₃ := by
  have hn := n.toNat_lt
  refine ⟨n.toNat % 256, n.toNat / 2 ^ 8 % 256, n.toNat / 2 ^ 16 % 256, n.toNat / 2 ^ 24, ?_⟩
  constructor <;> omega

lemma IsWord.lwipHtonl {n : UInt32} {b₀ b₁ b₂ b₃ : ℕ} (h : IsWord n b₀ b₁ b₂ b₃) :
    IsWord (lwipHtonl n) b₃ b₂ b₁ b₀ := by
  obtain ⟨lt₀, lt₁, lt₂, lt₃, eq⟩ := h
  have e0 : n.toNat % 256 = b₀ := by omega
  have e1 : n.toNat / 2 ^ 8 % 256 = b₁ := by omega
  have e2 : n.toNat / 2 ^ 16 % 256 = b₂ := by omega
  have e3 : n.toNat / 2 ^ 24 = b₃ := by omega
  refine ⟨lt₃, lt₂, lt₁, lt₀, ?_⟩
  rw [toNat_lwipHtonl, e0, e1, e2, e3]
  omega

/-- Swapping twice changes nothing. -/
@[simp] lemma lwipHtonl_lwipHtonl (n : UInt32) : lwipHtonl (lwipHtonl n) = n := by
  obtain ⟨b₀, b₁, b₂, b₃, h⟩ := exists_isWord n
  exact UInt32.toNat_inj.mp (h.lwipHtonl.lwipHtonl.eq.trans h.eq.symm)

/-! ## Network and last number -/

lemma octet_lt (a : Ip4) : octet a < 256 := by
  have ha := a.toNat_lt
  unfold octet
  omega

lemma net_lt (a : Ip4) : net a < 2 ^ 24 := Nat.mod_lt _ (by decide)

lemma toNat_eq (a : Ip4) : a.toNat = octet a * 2 ^ 24 + net a :=
  (Nat.div_add_mod' a.toNat (2 ^ 24)).symm

lemma ext_net_octet {a b : Ip4} (hnet : net a = net b) (hoctet : octet a = octet b) : a = b := by
  refine UInt32.toNat_inj.mp ?_
  rw [toNat_eq a, toNat_eq b, hnet, hoctet]

/-- Every last number occurs in every network. -/
lemma exists_octet (b : Ip4) {k : ℕ} (hk : k < 256) : ∃ a : Ip4, net a = net b ∧ octet a = k := by
  have hb := net_lt b
  have hlt : k * 2 ^ 24 + net b < 2 ^ 32 := by omega
  refine ⟨UInt32.ofNat (k * 2 ^ 24 + net b), ?_⟩
  rw [net, octet, UInt32.toNat_ofNat', Nat.mod_eq_of_lt hlt]
  omega

/-- In one network, the server compares the last numbers. -/
lemma lt_iff_octet_lt {a b : Ip4} (hnet : net a = net b) : a < b ↔ octet a < octet b := by
  rw [UInt32.lt_iff_toNat_lt, toNat_eq a, toNat_eq b, hnet]
  omega

lemma eq_iff_octet_eq {a b : Ip4} (hnet : net a = net b) : a = b ↔ octet a = octet b :=
  ⟨fun h => by rw [h], ext_net_octet hnet⟩

/-- The swapped word is the number of the network, in the order in which people write it, and the
last number. -/
def netNumber (a : Ip4) : ℕ :=
  net a % 256 * 2 ^ 16 + net a / 2 ^ 8 % 256 * 2 ^ 8 + net a / 2 ^ 16

lemma IsWord.net {a : Ip4} {b₀ b₁ b₂ b₃ : ℕ} (h : IsWord a b₀ b₁ b₂ b₃) :
    net a = b₀ + 2 ^ 8 * b₁ + 2 ^ 16 * b₂ := by
  obtain ⟨lt₀, lt₁, lt₂, lt₃, eq⟩ := h
  rw [Ip4.net, eq]
  omega

lemma IsWord.octet {a : Ip4} {b₀ b₁ b₂ b₃ : ℕ} (h : IsWord a b₀ b₁ b₂ b₃) : octet a = b₃ := by
  obtain ⟨lt₀, lt₁, lt₂, lt₃, eq⟩ := h
  rw [Ip4.octet, eq]
  omega

lemma IsWord.netNumber {a : Ip4} {b₀ b₁ b₂ b₃ : ℕ} (h : IsWord a b₀ b₁ b₂ b₃) :
    netNumber a = b₀ * 2 ^ 16 + b₁ * 2 ^ 8 + b₂ := by
  obtain ⟨lt₀, lt₁, lt₂, lt₃, eq⟩ := id h
  have e0 : (b₀ + 2 ^ 8 * b₁ + 2 ^ 16 * b₂) % 256 = b₀ := by omega
  have e1 : (b₀ + 2 ^ 8 * b₁ + 2 ^ 16 * b₂) / 2 ^ 8 % 256 = b₁ := by omega
  have e2 : (b₀ + 2 ^ 8 * b₁ + 2 ^ 16 * b₂) / 2 ^ 16 = b₂ := by omega
  rw [Ip4.netNumber, h.net, e0, e1, e2]

lemma toNat_lwipHtonl_eq (a : Ip4) : (lwipHtonl a).toNat = netNumber a * 256 + octet a := by
  obtain ⟨b₀, b₁, b₂, b₃, h⟩ := exists_isWord a
  rw [h.lwipHtonl.eq, h.netNumber, h.octet]
  omega

lemma netNumber_eq_iff {a b : Ip4} : netNumber a = netNumber b ↔ net a = net b := by
  obtain ⟨b₀, b₁, b₂, b₃, ha⟩ := exists_isWord a
  obtain ⟨c₀, c₁, c₂, c₃, hb⟩ := exists_isWord b
  rw [ha.netNumber, hb.netNumber, ha.net, hb.net]
  obtain ⟨_, _, _, _, _⟩ := ha
  obtain ⟨_, _, _, _, _⟩ := hb
  omega

/-- The address with the swapped word made of the network of `a` and the last number `k`. -/
lemma lwipHtonl_spec {a : Ip4} {n : UInt32} {k : ℕ} (hk : k < 256)
    (hn : n.toNat = netNumber a * 256 + k) :
    net (lwipHtonl n) = net a ∧ octet (lwipHtonl n) = k := by
  have hnum := toNat_lwipHtonl_eq (lwipHtonl n)
  have hlt := octet_lt (lwipHtonl n)
  rw [lwipHtonl_lwipHtonl, hn] at hnum
  exact ⟨netNumber_eq_iff.mp (by omega), by omega⟩

/-- **The next address** is the next one of the network, unless it was the last. -/
lemma nextAddr_spec {a : Ip4} (ha : octet a < 255) :
    net (nextAddr a) = net a ∧ octet (nextAddr a) = octet a + 1 := by
  refine lwipHtonl_spec (by omega) ?_
  have hswap := toNat_lwipHtonl_eq a
  have hmax := (lwipHtonl a).toNat_lt
  have hone : (1 : UInt32).toNat = 1 := rfl
  rw [UInt32.toNat_add, hone, Nat.mod_eq_of_lt (by omega)]
  omega

lemma net_nextAddr {a : Ip4} (ha : octet a < 255) : net (nextAddr a) = net a :=
  (nextAddr_spec ha).1

lemma octet_nextAddr {a : Ip4} (ha : octet a < 255) : octet (nextAddr a) = octet a + 1 :=
  (nextAddr_spec ha).2

/-! ## The bytes of an address -/

@[simp] lemma length_bytes (a : Ip4) : (bytes a).length = 4 := rfl

/-- **An address is determined by its bytes.** -/
lemma bytes_injective : Function.Injective bytes := by
  intro a b hab
  have ha := a.toNat_lt
  have hb := b.toNat_lt
  simp only [bytes, List.cons.injEq, and_true, ← UInt8.toNat_inj, UInt32.toNat_toUInt8,
    UInt32.toNat_shiftRight] at hab
  obtain ⟨h0, h1, h2, h3⟩ := hab
  have e8 : (8 : UInt32).toNat % 32 = 8 := rfl
  have e16 : (16 : UInt32).toNat % 32 = 16 := rfl
  have e24 : (24 : UInt32).toNat % 32 = 24 := rfl
  rw [e8, Nat.shiftRight_eq_div_pow, Nat.shiftRight_eq_div_pow] at h1
  rw [e16, Nat.shiftRight_eq_div_pow, Nat.shiftRight_eq_div_pow] at h2
  rw [e24, Nat.shiftRight_eq_div_pow, Nat.shiftRight_eq_div_pow] at h3
  refine UInt32.toNat_inj.mp ?_
  omega

end Ip4

end Chooser
