import Chooser.Dhcps.Pool
import Chooser.Lib.FreeSlot

/-!
# What the address server keeps true of its leases
-/

namespace Chooser

open CStr Ip4

/-! ## The addresses to lease -/

/-- The address is one of those that are leased. -/
structure DhcpsLease.Contains (poll : DhcpsLease) (a : Ip4) : Prop where
  net : a.net = poll.startIp.net
  start_le : poll.startIp.octet ≤ a.octet
  le_end : a.octet ≤ poll.endIp.octet

/-- The addresses are addresses of the network of the server, at most 101 of them, none of them
that of the server, and they do not reach the end of the network. -/
structure DhcpsLease.Serves (poll : DhcpsLease) (server : Ip4) : Prop where
  startNet : poll.startIp.net = server.net
  endNet : poll.endIp.net = server.net
  start_le : poll.startIp.octet ≤ poll.endIp.octet
  size : poll.endIp.octet ≤ poll.startIp.octet + 100
  outside : server.octet < poll.startIp.octet ∨ poll.endIp.octet < server.octet
  below : poll.endIp.octet < 255

lemma DhcpsLease.usable_iff (poll : DhcpsLease) (ip : Ip4) :
    poll.usable ip = true ↔
      ¬ (lwipHtonl poll.startIp ≤ lwipHtonl ip ∧ lwipHtonl ip ≤ lwipHtonl poll.endIp) ∧
        lwipHtonl poll.startIp >>> 8 = lwipHtonl ip >>> 8 ∧
        lwipHtonl poll.endIp >>> 8 = lwipHtonl ip >>> 8 ∧
        lwipHtonl poll.endIp - lwipHtonl poll.startIp ≤ dhcpsMaxLease := by
  simp [usable, and_assoc, imp_iff_not_or]

lemma shiftRight_lwipHtonl_eq_iff {a b : Ip4} :
    lwipHtonl a >>> 8 = lwipHtonl b >>> 8 ↔ a.net = b.net := by
  have e8 : (8 : UInt32).toNat % 32 = 8 := rfl
  have hnet : ∀ c : Ip4, (lwipHtonl c >>> 8).toNat = c.netNumber := by
    intro c
    have hc := c.octet_lt
    rw [UInt32.toNat_shiftRight, e8, toNat_lwipHtonl_eq, Nat.shiftRight_eq_div_pow]
    omega
  rw [← UInt32.toNat_inj, hnet, hnet, netNumber_eq_iff]

/-- What is configured is kept only if it serves the access point. -/
lemma DhcpsLease.serves_of_usable {poll : DhcpsLease} {ip : Ip4} (h : poll.usable ip = true)
    (hend : poll.endIp.octet ≠ 255) : poll.Serves ip := by
  obtain ⟨hout, hstart, hendNet, hsize⟩ := (usable_iff poll ip).mp h
  rw [shiftRight_lwipHtonl_eq_iff] at hstart hendNet
  have hS := toNat_lwipHtonl_eq poll.startIp
  have hE := toNat_lwipHtonl_eq poll.endIp
  have hA := toNat_lwipHtonl_eq ip
  rw [netNumber_eq_iff.mpr hstart] at hS
  rw [netNumber_eq_iff.mpr hendNet] at hE
  have hsLt := poll.startIp.octet_lt
  have heLt := poll.endIp.octet_lt
  have hword := (lwipHtonl poll.endIp).toNat_lt
  have hmax : dhcpsMaxLease.toNat = 100 := rfl
  -- a start behind the end would make the difference wrap around, and so be large
  rw [UInt32.le_iff_toNat_le, UInt32.toNat_sub, hmax] at hsize
  rw [UInt32.le_iff_toNat_le, UInt32.le_iff_toNat_le] at hout
  refine ⟨hstart, hendNet, ?_, ?_, ?_, ?_⟩ <;> omega

/-- The upper three bytes of a word, with another last byte. -/
lemma toNat_netMask_or (n : UInt32) {k : UInt32} (hk : k.toNat < 256) :
    ((n &&& 0xFFFFFF00) ||| k).toNat = n.toNat / 256 * 256 + k.toNat := by
  have hn := n.toNat_lt
  have hmask : (0xFFFFFF00 : UInt32).toNat = (2 ^ 24 - 1) <<< 8 := rfl
  have hupper : n.toNat &&& (2 ^ 24 - 1) <<< 8 = 2 ^ 8 * (n.toNat / 256) := by
    refine Nat.eq_of_testBit_eq fun i => ?_
    rw [Nat.testBit_and, Nat.testBit_shiftLeft, Nat.testBit_two_pow_sub_one,
      Nat.testBit_two_pow_mul, show 256 = 2 ^ 8 from rfl, Nat.testBit_div_two_pow]
    by_cases hi : 8 ≤ i
    · rw [Nat.sub_add_cancel hi]
      by_cases hlt : i < 32
      · simp [hi, show i - 8 < 24 by omega]
      · have hbit : n.toNat.testBit i = false := by
          refine Nat.testBit_lt_two_pow (hn.trans_le ?_)
          exact Nat.pow_le_pow_right (by decide) (by omega)
        simp [hbit]
    · simp [hi]
  rw [UInt32.toNat_or, UInt32.toNat_and, hmask, hupper, ← Nat.two_pow_add_eq_or_of_lt hk]
  omega

/-- **The addresses serve the access point**, whatever is configured, unless the configuration ends
with the last address of the network. -/
theorem serves_dhcpsPollSet {poll : DhcpsLease} (ip : Ip4)
    (hend : poll.enable = true → poll.endIp.octet ≠ 255) : (dhcpsPollSet poll ip).Serves ip := by
  by_cases hkeep : (poll.enable && poll.usable ip) = true
  · rw [dhcpsPollSet, if_pos hkeep]
    rw [Bool.and_eq_true] at hkeep
    exact DhcpsLease.serves_of_usable hkeep.2 (hend hkeep.1)
  · -- the default: up to a hundred addresses next to that of the access point
    have hip := ip.octet_lt
    have hswap := toNat_lwipHtonl_eq ip
    have hlow : (lwipHtonl ip &&& 0xFF).toNat = ip.octet := by
      rw [UInt32.toNat_and]
      refine (Nat.and_two_pow_sub_one_eq_mod _ 8).trans ?_
      omega
    have h128 : (0x80 : UInt32).toNat = 128 := rfl
    have hone : (1 : UInt32).toNat = 1 := rfl
    have hmax : dhcpsMaxLease.toNat = 100 := rfl
    have hcond : lwipHtonl ip &&& 0xFF ≥ 0x80 ↔ 128 ≤ ip.octet := by
      rw [ge_iff_le, UInt32.le_iff_toNat_le, hlow, h128]
    rw [dhcpsPollSet, if_neg hkeep]
    dsimp only
    generalize hlocal : (if lwipHtonl ip &&& 0xFF ≥ 0x80 then
      (lwipHtonl ip &&& 0xFF) - dhcpsMaxLease else (lwipHtonl ip &&& 0xFF) + 1) = start
    have hstart : (128 ≤ ip.octet ∧ start.toNat + 100 = ip.octet) ∨
        (ip.octet < 128 ∧ start.toNat = ip.octet + 1) := by
      by_cases hge : 128 ≤ ip.octet
      · rw [← hlocal, if_pos (hcond.mpr hge), UInt32.toNat_sub, hlow, hmax]
        omega
      · rw [← hlocal, if_neg (mt hcond.mp hge), UInt32.toNat_add, hlow, hone]
        omega
    have hlast : (start + dhcpsMaxLease - 1).toNat = start.toNat + 99 := by
      rw [UInt32.toNat_sub, UInt32.toNat_add, hone, hmax]
      omega
    have hnum : (lwipHtonl ip).toNat / 256 = ip.netNumber := by omega
    obtain ⟨hnet₁, hoctet₁⟩ := lwipHtonl_spec (a := ip) (k := start.toNat)
      (n := (lwipHtonl ip &&& 0xFFFFFF00) ||| start) (by omega)
      (by rw [toNat_netMask_or _ (by omega), hnum])
    obtain ⟨hnet₂, hoctet₂⟩ := lwipHtonl_spec (a := ip) (k := start.toNat + 99)
      (n := (lwipHtonl ip &&& 0xFFFFFF00) ||| (start + dhcpsMaxLease - 1)) (by omega)
      (by rw [toNat_netMask_or _ (by omega), hnum, hlast])
    generalize lwipHtonl (lwipHtonl ip &&& 0xFFFFFF00 ||| start) = first at *
    generalize lwipHtonl (lwipHtonl ip &&& 0xFFFFFF00 ||| (start + dhcpsMaxLease - 1)) = last at *
    refine ⟨hnet₁, hnet₂, ?_, ?_, ?_, ?_⟩ <;> simp only [hoctet₁, hoctet₂] <;> omega

/-! ## The order of the addresses -/

namespace DhcpsLease

variable {poll : DhcpsLease} {server a b : Ip4}

lemma Serves.contains_startIp (h : poll.Serves server) : poll.Contains poll.startIp :=
  ⟨rfl, le_rfl, h.start_le⟩

lemma Contains.ext (ha : poll.Contains a) (hb : poll.Contains b) (h : a.octet = b.octet) : a = b :=
  ext_net_octet (ha.net.trans hb.net.symm) h

lemma Contains.lt_iff (ha : poll.Contains a) (hb : poll.Contains b) : a < b ↔ a.octet < b.octet :=
  lt_iff_octet_lt (ha.net.trans hb.net.symm)

/-- For an address of the network, being behind the end is a matter of the last number. -/
lemma Serves.endIp_lt_iff (h : poll.Serves server) (ha : a.net = poll.startIp.net) :
    poll.endIp < a ↔ poll.endIp.octet < a.octet :=
  lt_iff_octet_lt (h.endNet.trans (h.startNet.symm.trans ha.symm))

/-- The address that follows one that is leased is leased too, unless that was the last one. -/
lemma Serves.contains_nextAddr (h : poll.Serves server) (ha : poll.Contains a)
    (hne : a ≠ poll.endIp) : poll.Contains (nextAddr a) := by
  have hnet : a.net = poll.endIp.net := ha.net.trans (h.startNet.trans h.endNet.symm)
  have hlt : a.octet < poll.endIp.octet := lt_of_le_of_ne ha.le_end (mt (ext_net_octet hnet) hne)
  have hbelow : a.octet < 255 := hlt.trans h.below
  refine ⟨(net_nextAddr hbelow).trans ha.net, ?_, ?_⟩ <;> rw [octet_nextAddr hbelow]
  · exact ha.start_le.trans (Nat.le_succ _)
  · exact hlt

end DhcpsLease

/-! ## The invariant -/

/-- **What is true of the leases**: they are sorted, each is of one of the addresses to lease, and
no station has two. -/
structure LeasesOk (poll : DhcpsLease) (ps : List DhcpsPool) : Prop where
  contains : ∀ p ∈ ps, poll.Contains p.ip
  sorted : ps.Pairwise fun p q => p.ip < q.ip
  macs : (ps.map DhcpsPool.mac).Nodup

/-- **What is true of a server while it runs**: besides, its addresses serve the access point, and
the candidate for the next lease is one of them. -/
structure Dhcps.Ok (s : Dhcps) : Prop extends LeasesOk s.dhcpsPoll s.plist where
  serves : s.dhcpsPoll.Serves s.serverAddress
  plus : s.dhcpsPoll.Contains s.clientAddressPlus

section LeasesOk

variable {poll : DhcpsLease} {ps ps' : List DhcpsPool}

/-- Address and station of a lease. -/
def DhcpsPool.key (p : DhcpsPool) : Ip4 × Mac := (p.ip, p.mac)

/-- Leases may be removed, and their timers may be changed. -/
lemma LeasesOk.of_keys (h : LeasesOk poll ps)
    (hkeys : (ps'.map DhcpsPool.key).Sublist (ps.map DhcpsPool.key)) : LeasesOk poll ps' := by
  have hsorted : (ps.map DhcpsPool.key).Pairwise fun a b => a.1 < b.1 :=
    List.pairwise_map.mpr h.sorted
  have hmacs : (ps'.map DhcpsPool.mac).Sublist (ps.map DhcpsPool.mac) := by
    have hsub := hkeys.map Prod.snd
    rwa [List.map_map, List.map_map] at hsub
  have hkeys' : (ps'.map DhcpsPool.key).Pairwise fun a b => a.1 < b.1 := hsorted.sublist hkeys
  have hsorted' := List.pairwise_map.mp hkeys'
  refine ⟨fun p hp => ?_, hsorted', h.macs.sublist hmacs⟩
  obtain ⟨q, hq, hkey⟩ := List.mem_map.mp (hkeys.subset (List.mem_map_of_mem hp))
  have hip : q.ip = p.ip := congrArg Prod.fst hkey
  exact hip ▸ h.contains q hq

lemma LeasesOk.sublist (h : LeasesOk poll ps) (hsub : ps'.Sublist ps) : LeasesOk poll ps' :=
  h.of_keys (hsub.map _)

lemma mem_nodeInsertToList {p q : DhcpsPool} :
    q ∈ nodeInsertToList ps p ↔ q = p ∨ q ∈ ps := by
  induction ps with
  | nil => simp [nodeInsertToList]
  | cons r rs ih =>
      rw [nodeInsertToList]
      split_ifs
      · exact List.mem_cons
      · rw [List.mem_cons, ih, List.mem_cons]
        exact or_left_comm

lemma nodeInsertToList_perm (ps : List DhcpsPool) (p : DhcpsPool) :
    (nodeInsertToList ps p).Perm (p :: ps) := by
  induction ps with
  | nil => exact List.Perm.refl _
  | cons r rs ih =>
      rw [nodeInsertToList]
      split_ifs
      · exact List.Perm.refl _
      · exact (ih.cons r).trans (List.Perm.swap p r rs)

/-- A lease of a free address for a new station. -/
lemma LeasesOk.insert (h : LeasesOk poll ps) {p : DhcpsPool} (hp : poll.Contains p.ip)
    (hip : ∀ q ∈ ps, q.ip ≠ p.ip) (hmac : ∀ q ∈ ps, q.mac ≠ p.mac) :
    LeasesOk poll (nodeInsertToList ps p) := by
  refine ⟨fun q hq => ?_, ?_, ?_⟩
  · rcases mem_nodeInsertToList.mp hq with rfl | hq
    · exact hp
    · exact h.contains q hq
  · have hsorted := h.sorted
    clear h hmac
    induction ps with
    | nil => exact List.pairwise_singleton _ _
    | cons r rs ih =>
        obtain ⟨hhead, htail⟩ := List.pairwise_cons.mp hsorted
        rw [nodeInsertToList]
        split_ifs with hlt
        · refine List.pairwise_cons.mpr ⟨fun q hq => ?_, hsorted⟩
          rcases List.mem_cons.mp hq with rfl | hq
          · exact hlt
          · exact UInt32.lt_trans hlt (hhead q hq)
        · refine List.pairwise_cons.mpr ⟨fun q hq => ?_, ?_⟩
          · rcases mem_nodeInsertToList.mp hq with rfl | hq
            · exact UInt32.lt_of_le_of_ne (UInt32.not_lt.mp hlt) (hip r List.mem_cons_self)
            · exact hhead q hq
          · exact ih (fun q hq => hip q (List.mem_cons_of_mem r hq)) htail
  · rw [((nodeInsertToList_perm ps p).map _).nodup_iff, List.map_cons, List.nodup_cons]
    refine ⟨fun hmem => ?_, h.macs⟩
    obtain ⟨q, hq, heq⟩ := List.mem_map.mp hmem
    exact hmac q hq heq

lemma decrementTimers_keys (ps : List DhcpsPool) :
    ((decrementTimers ps).map DhcpsPool.key).Sublist (ps.map DhcpsPool.key) := by
  induction ps with
  | nil => exact List.Sublist.slnil
  | cons p ps ih =>
      by_cases hp : p.leaseTimer - 1 = 0
      · rw [decrementTimers, List.filterMap_cons_none (by rw [if_pos hp])]
        exact ih.cons _
      · rw [decrementTimers, List.filterMap_cons_some (by rw [if_neg hp])]
        exact ih.cons_cons _

lemma killOldestDhcpsPool_sublist (ps : List DhcpsPool) :
    (killOldestDhcpsPool ps).Sublist ps := by
  unfold killOldestDhcpsPool
  split
  · exact List.eraseP_sublist.cons_cons _
  · exact List.Sublist.refl _

end LeasesOk

/-- The last numbers of the addresses that are leased. -/
def octets (ps : List DhcpsPool) : List ℕ := ps.map fun p => p.ip.octet

lemma octets_sorted {poll : DhcpsLease} {ps : List DhcpsPool}
    (hcontains : ∀ p ∈ ps, poll.Contains p.ip) (hsorted : ps.Pairwise fun p q => p.ip < q.ip) :
    (octets ps).Pairwise (· < ·) := by
  rw [octets, List.pairwise_map]
  refine hsorted.imp_of_mem fun {p q} hp hq hlt => ?_
  exact ((hcontains p hp).lt_iff (hcontains q hq)).mp hlt

/-! ## The walk along the list -/

/-- The walk, in terms of last numbers: the candidate for the next address, and the search for the
first gap. -/
structure PoolWalk.Sees (poll : DhcpsLease) (w : PoolWalk) (plus : ℕ) (gap : ℕ × Bool) : Prop where
  plusNet : w.clientAddressPlus.net = poll.startIp.net
  plus : w.clientAddressPlus.octet = plus
  client : w.clientAddress = w.clientAddressPlus
  firstNet : w.firstAddress.net = poll.startIp.net
  first : w.firstAddress.octet = gap.1
  flag : w.flag = gap.2

section PoolWalk

variable {poll : DhcpsLease} {server : Ip4} {w : PoolWalk} {plus : ℕ} {gap : ℕ × Bool}

lemma PoolWalk.searchFirst_clientAddressPlus (w : PoolWalk) (p : DhcpsPool) :
    (w.searchFirst p).clientAddressPlus = w.clientAddressPlus ∧
      (w.searchFirst p).clientAddress = w.clientAddress := by
  unfold PoolWalk.searchFirst
  split_ifs <;> exact ⟨rfl, rfl⟩

lemma PoolWalk.skipPlus_firstAddress (w : PoolWalk) (p : DhcpsPool) :
    (w.skipPlus p).firstAddress = w.firstAddress ∧ (w.skipPlus p).flag = w.flag := by
  unfold PoolWalk.skipPlus
  split_ifs <;> exact ⟨rfl, rfl⟩

lemma PoolWalk.step_clientAddressPlus (w : PoolWalk) (p : DhcpsPool) :
    (w.step p).clientAddressPlus =
      if p.ip = w.clientAddressPlus then nextAddr w.clientAddressPlus else w.clientAddressPlus := by
  rw [PoolWalk.step, (PoolWalk.searchFirst_clientAddressPlus _ p).1, PoolWalk.skipPlus]
  split_ifs <;> rfl

lemma PoolWalk.step_clientAddress (h : w.clientAddress = w.clientAddressPlus) (p : DhcpsPool) :
    (w.step p).clientAddress = (w.step p).clientAddressPlus := by
  obtain ⟨hplus, hclient⟩ := PoolWalk.searchFirst_clientAddressPlus (w.skipPlus p) p
  rw [PoolWalk.step, hplus, hclient, PoolWalk.skipPlus]
  split_ifs
  · rfl
  · exact h

lemma PoolWalk.step_firstAddress (w : PoolWalk) (p : DhcpsPool) :
    (w.step p).firstAddress =
      if w.flag = true ∨ w.firstAddress < p.ip then w.firstAddress
      else nextAddr w.firstAddress := by
  obtain ⟨hfirst, hflag⟩ := PoolWalk.skipPlus_firstAddress w p
  rw [PoolWalk.step, PoolWalk.searchFirst, hfirst, hflag]
  by_cases hfound : w.flag = true
  · rw [if_pos hfound, if_pos (Or.inl hfound), hfirst]
  · by_cases hless : w.firstAddress < p.ip
    · rw [if_neg hfound, if_pos hless, if_pos (Or.inr hless), ← hfirst]
    · rw [if_neg hfound, if_neg hless, if_neg (not_or.mpr ⟨hfound, hless⟩)]

lemma PoolWalk.step_flag (w : PoolWalk) (p : DhcpsPool) :
    (w.step p).flag = (w.flag || decide (w.firstAddress < p.ip)) := by
  obtain ⟨hfirst, hflag⟩ := PoolWalk.skipPlus_firstAddress w p
  rw [← hfirst, ← hflag, PoolWalk.step, PoolWalk.searchFirst]
  split_ifs <;> simp_all

/-- **One lease on the way.** The first free address so far is not behind it. -/
lemma PoolWalk.Sees.step (h : w.Sees poll plus gap) (hserves : poll.Serves server) {p : DhcpsPool}
    (hp : poll.Contains p.ip) (hgap : gap.2 = false → gap.1 ≤ p.ip.octet) :
    (w.step p).Sees poll (FreeSlot.bumpStep plus p.ip.octet)
      (FreeSlot.gapStep gap p.ip.octet) := by
  have hbelow : p.ip.octet < 255 := hp.le_end.trans_lt hserves.below
  have heq : p.ip = w.clientAddressPlus ↔ p.ip.octet = plus := by
    rw [eq_iff_octet_eq (hp.net.trans h.plusNet.symm), h.plus]
  have hlt : w.firstAddress < p.ip ↔ gap.1 < p.ip.octet := by
    rw [lt_iff_octet_lt (h.firstNet.trans hp.net.symm), h.first]
  have hplus : (w.step p).clientAddressPlus.net = poll.startIp.net ∧
      (w.step p).clientAddressPlus.octet = FreeSlot.bumpStep plus p.ip.octet := by
    rw [PoolWalk.step_clientAddressPlus, FreeSlot.bumpStep]
    by_cases hp : p.ip = w.clientAddressPlus
    · have hlast : w.clientAddressPlus.octet < 255 := hp ▸ hbelow
      rw [if_pos hp, if_pos (heq.mp hp), net_nextAddr hlast, octet_nextAddr hlast, h.plus]
      exact ⟨h.plusNet, rfl⟩
    · rw [if_neg hp, if_neg (mt heq.mpr hp)]
      exact ⟨h.plusNet, h.plus⟩
  have hfirst : (w.step p).firstAddress.net = poll.startIp.net ∧
      (w.step p).firstAddress.octet = (FreeSlot.gapStep gap p.ip.octet).1 ∧
      (w.step p).flag = (FreeSlot.gapStep gap p.ip.octet).2 := by
    rw [PoolWalk.step_firstAddress, PoolWalk.step_flag, FreeSlot.gapStep, h.flag]
    by_cases hflag : gap.2 = true
    · simp [hflag, h.firstNet, h.first]
    · by_cases hless : gap.1 < p.ip.octet
      · simp [hflag, hlt.mpr hless, hless, h.firstNet, h.first]
      · have hlast : w.firstAddress.octet < 255 := by
          rw [h.first]
          exact (hgap (by simpa using hflag)).trans_lt hbelow
        simp [hflag, mt hlt.mp hless, hless, net_nextAddr hlast, octet_nextAddr hlast, h.firstNet,
          h.first]
  exact ⟨hplus.1, hplus.2, PoolWalk.step_clientAddress h.client p, hfirst.1, hfirst.2.1, hfirst.2.2⟩

/-- **All leases on the way.** -/
lemma PoolWalk.Sees.foldl {ps : List DhcpsPool} (h : w.Sees poll plus gap)
    (hserves : poll.Serves server) (hps : ∀ p ∈ ps, poll.Contains p.ip)
    (hsorted : ps.Pairwise fun p q => p.ip < q.ip)
    (hgap : gap.2 = false → ∀ p ∈ ps, gap.1 ≤ p.ip.octet) :
    (ps.foldl PoolWalk.step w).Sees poll (FreeSlot.bump plus (octets ps))
      (FreeSlot.gap gap (octets ps)) := by
  induction ps generalizing w plus gap with
  | nil => exact h
  | cons p ps ih =>
      obtain ⟨hhead, htail⟩ := List.pairwise_cons.mp hsorted
      have hp := hps p List.mem_cons_self
      have hrest : ∀ q ∈ ps, poll.Contains q.ip := fun q hq => hps q (List.mem_cons_of_mem p hq)
      have hstep := h.step hserves hp fun hflag => hgap hflag p List.mem_cons_self
      refine ih hstep hrest htail fun hflag q hq => ?_
      have hlt : p.ip.octet < q.ip.octet := (hp.lt_iff (hrest q hq)).mp (hhead q hq)
      have hlo := hgap ?_ p List.mem_cons_self
      · unfold FreeSlot.gapStep at hflag ⊢
        split_ifs at hflag ⊢ with hfound hless
        · exact hlo.trans hlt.le
        · show gap.1 + 1 ≤ q.ip.octet
          omega
      · unfold FreeSlot.gapStep at hflag
        split_ifs at hflag with hfound <;> simp_all

/-- Without a lease for the client the walk goes to the end. -/
lemma PoolWalk.along_of_forall_ne {mac : Mac} {ps : List DhcpsPool} (h : ∀ p ∈ ps, p.mac ≠ mac) :
    PoolWalk.along mac ps w = (ps.foldl PoolWalk.step w, none) := by
  induction ps generalizing w with
  | nil => rfl
  | cons p ps ih =>
      rw [PoolWalk.along, if_neg (h p List.mem_cons_self),
        ih fun q hq => h q (List.mem_cons_of_mem p hq)]
      rfl

/-- Otherwise it stops there. -/
lemma PoolWalk.along_append {mac : Mac} {before after : List DhcpsPool} {p : DhcpsPool}
    (h : ∀ q ∈ before, q.mac ≠ mac) (hp : p.mac = mac) :
    PoolWalk.along mac (before ++ p :: after) w = (before.foldl PoolWalk.step w, some p) := by
  induction before generalizing w with
  | nil => rw [List.nil_append, PoolWalk.along, if_pos hp]; rfl
  | cons q qs ih =>
      rw [List.cons_append, PoolWalk.along, if_neg (h q List.mem_cons_self),
        ih fun r hr => h r (List.mem_cons_of_mem q hr)]
      rfl

end PoolWalk

/-! ## Finding an address -/

section FindAddress

variable {s : Dhcps} {mac : Mac} (ciaddr : Bytes)

/-- The walk begins at the first address and at the candidate. -/
lemma Dhcps.Ok.sees (hs : s.Ok) :
    PoolWalk.Sees s.dhcpsPoll ⟨s.dhcpsPoll.startIp, false, s.clientAddressPlus, s.clientAddressPlus⟩
      s.clientAddressPlus.octet (s.dhcpsPoll.startIp.octet, false) :=
  ⟨hs.plus.net, rfl, rfl, rfl, rfl, rfl⟩

/-- **The station has a lease**: it keeps the address, for the full time from now on. -/
lemma Dhcps.findAddress_known (hs : s.Ok) {before after : List DhcpsPool} {p : DhcpsPool}
    (hlist : s.plist = before ++ p :: after) (hp : p.mac = mac) :
    ∃ plus, s.dhcpsPoll.Contains plus ∧
      s.findAddress mac ciaddr = ({ s with
        renew := p.ip.bytes = ciaddr
        clientAddress := p.ip
        clientAddressPlus := plus
        plist := before ++ { p with leaseTimer := s.leaseTimer } :: after }, true) := by
  have hmacs := hs.macs
  rw [hlist, List.map_append, List.map_cons] at hmacs
  have hbefore : ∀ q ∈ before, q.mac ≠ mac := by
    intro q hq heq
    have hdisjoint := (List.nodup_append.mp hmacs).2.2 q.mac (List.mem_map_of_mem hq) p.mac
      List.mem_cons_self
    exact hdisjoint (heq.trans hp.symm)
  have hcontains : ∀ q ∈ before ++ p :: after, s.dhcpsPoll.Contains q.ip := hlist ▸ hs.contains
  have hsorted : (before ++ p :: after).Pairwise fun p q => p.ip < q.ip := hlist ▸ hs.sorted
  have hrefresh : refreshTimer mac s.leaseTimer (before ++ p :: after)
      = before ++ { p with leaseTimer := s.leaseTimer } :: after := by
    clear hlist hcontains hsorted hmacs
    induction before with
    | nil => rw [List.nil_append, refreshTimer, if_pos hp, List.nil_append]
    | cons q qs ih =>
        rw [List.cons_append, refreshTimer, if_neg (hbefore q List.mem_cons_self),
          ih fun r hr => hbefore r (List.mem_cons_of_mem q hr), List.cons_append]
  have hsees := hs.sees.foldl hs.serves (fun q hq => hcontains q (List.mem_append_left _ hq))
    (List.pairwise_append.mp hsorted).1
    fun _ q hq => (hcontains q (List.mem_append_left _ hq)).start_le
  refine ⟨_, ⟨hsees.plusNet, ?_, ?_⟩, ?_⟩
  · rw [hsees.plus]
    exact hs.plus.start_le.trans (FreeSlot.le_bump _ _)
  · -- the candidate does not get past the end: the leases on the way are before `p`
    rw [hsees.plus]
    by_contra hgt
    have hmem := FreeSlot.mem_of_lt_bump hs.plus.le_end (not_le.mp hgt)
    obtain ⟨q, hq, hoctet⟩ := List.mem_map.mp hmem
    have hpin := hcontains p (List.mem_append_right _ List.mem_cons_self)
    have hlt := (List.pairwise_append.mp hsorted).2.2 q hq p List.mem_cons_self
    rw [(hcontains q (List.mem_append_left _ hq)).lt_iff hpin] at hlt
    have hle := hpin.le_end
    omega
  · rw [Dhcps.findAddress, hlist, PoolWalk.along_append hbefore hp, hrefresh]

/-- The slot that is free for a new station: with no leases at all, the first one. -/
def Dhcps.freeOctet (s : Dhcps) : Option ℕ :=
  FreeSlot.alloc s.dhcpsPoll.startIp.octet s.dhcpsPoll.endIp.octet
    (if s.plist = [] then s.dhcpsPoll.startIp.octet else s.clientAddressPlus.octet)
    (octets s.plist)

/-- The candidate is one of the slots, so the allocator is used as it has to be. -/
lemma Dhcps.Ok.octets_ok (hs : s.Ok) :
    (octets s.plist).Pairwise (· < ·) ∧ (∀ x ∈ octets s.plist, s.dhcpsPoll.startIp.octet ≤ x) ∧
      s.dhcpsPoll.startIp.octet ≤
        if s.plist = [] then s.dhcpsPoll.startIp.octet else s.clientAddressPlus.octet := by
  refine ⟨octets_sorted hs.contains hs.sorted, fun x hx => ?_, ?_⟩
  · obtain ⟨p, hp, rfl⟩ := List.mem_map.mp hx
    exact (hs.contains p hp).start_le
  · split_ifs
    · exact le_rfl
    · exact hs.plus.start_le

/-- **The station has no lease**: it gets the free slot that the allocator finds, if there
is one. -/
lemma Dhcps.findAddress_unknown (hs : s.Ok) (hmac : ∀ p ∈ s.plist, p.mac ≠ mac) :
    (∃ a plus, s.dhcpsPoll.Contains a ∧ s.freeOctet = some a.octet ∧ s.dhcpsPoll.Contains plus ∧
      s.findAddress mac ciaddr = ({ s with
        renew := false
        clientAddress := a
        clientAddressPlus := plus
        plist := nodeInsertToList s.plist ⟨a, mac, s.leaseTimer⟩ }, true)) ∨
    (s.freeOctet = none ∧ ∃ a, a > s.dhcpsPoll.endIp ∧
      s.findAddress mac ciaddr = ({ s with
        renew := false
        clientAddress := a
        clientAddressPlus := s.dhcpsPoll.startIp }, false)) := by
  have hsees := hs.sees.foldl hs.serves hs.contains hs.sorted
    fun _ q hq => (hs.contains q hq).start_le
  have hsome : ∀ a, s.dhcpsPoll.Contains a → s.dhcpsPoll.Contains
      (if a = s.dhcpsPoll.endIp then s.dhcpsPoll.startIp else nextAddr a) := by
    intro a ha
    split_ifs with hend
    · exact hs.serves.contains_startIp
    · exact hs.serves.contains_nextAddr ha hend
  rw [Dhcps.findAddress, PoolWalk.along_of_forall_ne hmac]
  generalize s.plist.foldl PoolWalk.step _ = w at hsees
  have hplus : w.clientAddressPlus > s.dhcpsPoll.endIp ↔
      ¬ FreeSlot.bump s.clientAddressPlus.octet (octets s.plist) ≤ s.dhcpsPoll.endIp.octet := by
    rw [gt_iff_lt, hs.serves.endIp_lt_iff hsees.plusNet, hsees.plus, not_le]
  have hfirst : w.firstAddress > s.dhcpsPoll.endIp ↔
      ¬ (FreeSlot.gap (s.dhcpsPoll.startIp.octet, false) (octets s.plist)).1 ≤
        s.dhcpsPoll.endIp.octet := by
    rw [gt_iff_lt, hs.serves.endIp_lt_iff hsees.firstNet, hsees.first, not_le]
  dsimp only
  by_cases hnil : s.plist = []
  · -- no leases: the first address
    left
    have hoct : octets s.plist = [] := by rw [hnil]; rfl
    have hle : ¬ w.clientAddressPlus > s.dhcpsPoll.endIp := by
      rw [hplus, not_not, hoct]
      exact hs.plus.le_end
    have hstart : ¬ s.dhcpsPoll.startIp > s.dhcpsPoll.endIp := by
      rw [gt_iff_lt, hs.serves.endIp_lt_iff rfl, not_lt]
      exact hs.serves.start_le
    refine ⟨s.dhcpsPoll.startIp, _, hs.serves.contains_startIp, ?_,
      hsome _ hs.serves.contains_startIp, ?_⟩
    · rw [Dhcps.freeOctet, if_pos hnil, hoct, FreeSlot.alloc, FreeSlot.bump_nil,
        if_pos hs.serves.start_le]
    · rw [if_pos hnil, if_neg hle, if_neg hstart]
  · have hfree : s.freeOctet = FreeSlot.alloc s.dhcpsPoll.startIp.octet s.dhcpsPoll.endIp.octet
        s.clientAddressPlus.octet (octets s.plist) := by rw [Dhcps.freeOctet, if_neg hnil]
    rw [if_neg hnil, hsees.client, hfree, FreeSlot.alloc]
    by_cases hbump : FreeSlot.bump s.clientAddressPlus.octet (octets s.plist) ≤
        s.dhcpsPoll.endIp.octet
    · left
      have hin : s.dhcpsPoll.Contains w.clientAddressPlus := by
        refine ⟨hsees.plusNet, ?_, ?_⟩ <;> rw [hsees.plus]
        · exact hs.plus.start_le.trans (FreeSlot.le_bump _ _)
        · exact hbump
      have hle := mt hplus.mp (not_not.mpr hbump)
      refine ⟨w.clientAddressPlus, _, hin, ?_, hsome _ hin, ?_⟩
      · rw [if_pos hbump, hsees.plus]
      · rw [if_neg hle, if_neg hle]
    · rw [if_neg hbump, if_pos (hplus.mpr hbump)]
      by_cases hgap : (FreeSlot.gap (s.dhcpsPoll.startIp.octet, false) (octets s.plist)).1 ≤
          s.dhcpsPoll.endIp.octet
      · left
        have hspec := FreeSlot.gap_spec hs.octets_ok.1 hs.octets_ok.2.1
        have hin : s.dhcpsPoll.Contains w.firstAddress := by
          refine ⟨hsees.firstNet, ?_, ?_⟩ <;> rw [hsees.first]
          · exact hspec.1
          · exact hgap
        refine ⟨w.firstAddress, _, hin, ?_, hsome _ hin, ?_⟩
        · rw [if_pos hgap, hsees.first]
        · rw [if_neg (mt hfirst.mp (not_not.mpr hgap))]
      · right
        refine ⟨if_neg hgap, w.firstAddress, hfirst.mpr hgap, ?_⟩
        rw [if_pos (hfirst.mpr hgap)]

/-- What the allocator finds is not leased. -/
lemma Dhcps.Ok.free_of_freeOctet (hs : s.Ok) {a : Ip4} (ha : s.freeOctet = some a.octet) :
    ∀ p ∈ s.plist, p.ip ≠ a := by
  obtain ⟨hsorted, hlo, hplus⟩ := hs.octets_ok
  have hfree := (FreeSlot.alloc_free hsorted hlo hplus ha).2.2
  intro p hp heq
  exact hfree (heq ▸ List.mem_map_of_mem hp)

/-- **A station is turned away only if every address is leased.** -/
lemma Dhcps.Ok.freeOctet_eq_none_iff (hs : s.Ok) :
    s.freeOctet = none ↔ ∀ a, s.dhcpsPoll.Contains a → ∃ p ∈ s.plist, p.ip = a := by
  obtain ⟨hsorted, hlo, hplus⟩ := hs.octets_ok
  rw [Dhcps.freeOctet, FreeSlot.alloc_eq_none_iff hsorted hlo hplus]
  constructor
  · intro hall a ha
    obtain ⟨p, hp, hoctet⟩ := List.mem_map.mp (hall a.octet ha.start_le ha.le_end)
    exact ⟨p, hp, (hs.contains p hp).ext ha hoctet⟩
  · intro hall k hlo hhi
    have hend := s.dhcpsPoll.endIp.octet_lt
    obtain ⟨a, hnet, rfl⟩ := exists_octet s.dhcpsPoll.startIp (k := k) (by omega)
    obtain ⟨p, hp, rfl⟩ := hall a ⟨hnet, hlo, hhi⟩
    exact List.mem_map_of_mem hp

end FindAddress

end Chooser
