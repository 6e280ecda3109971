import Chooser.Dhcps.Leases
import Chooser.Dhcps.Message
import Chooser.Lib.LeaseTable

/-!
# The address server as a table of leases

The list of the server is a table that maps a station to its address and to the seconds that are
left.  What a message does to the server is what it does to this table: the station is given a lease
or has it prolonged (`hold`), and with a release it is dropped.  A second is one tick, and perhaps
one lease is given up.
-/

namespace Chooser

open CStr Ip4 LeaseTable

/-- The seconds that are left of a lease.  A timer of 0 goes around. -/
def secondsLeft (t : UInt32) : ℕ := if t = 0 then 2 ^ 32 else t.toNat

def DhcpsPool.lease (p : DhcpsPool) : Lease Ip4 := ⟨p.ip, secondsLeft p.leaseTimer⟩

def tableOf (ps : List DhcpsPool) : Table Mac Ip4 := fun mac =>
  (ps.find? fun p => p.mac = mac).map DhcpsPool.lease

def Dhcps.table (s : Dhcps) : Table Mac Ip4 := tableOf s.plist

/-! ## The list as a table -/

section TableOf

variable {ps : List DhcpsPool} {mac : Mac} {l : Lease Ip4}

lemma tableOf_eq_none_iff : tableOf ps mac = none ↔ ∀ p ∈ ps, p.mac ≠ mac := by
  simp [tableOf]

lemma tableOf_eq_some_iff (hmacs : (ps.map DhcpsPool.mac).Nodup) :
    tableOf ps mac = some l ↔ ∃ p ∈ ps, p.mac = mac ∧ p.lease = l := by
  induction ps with
  | nil => simp [tableOf]
  | cons q qs ih =>
      rw [List.map_cons, List.nodup_cons] at hmacs
      have hcons : tableOf (q :: qs) mac = if q.mac = mac then some q.lease else tableOf qs mac := by
        rw [tableOf, List.find?_cons]
        by_cases hq : q.mac = mac <;> simp [hq, tableOf]
      rw [hcons]
      by_cases hq : q.mac = mac
      · rw [if_pos hq]
        constructor
        · intro h
          exact ⟨q, List.mem_cons_self, hq, Option.some.inj h⟩
        · rintro ⟨p, hp, hmac, rfl⟩
          rcases List.mem_cons.mp hp with rfl | hp
          · rfl
          · exact absurd (List.mem_map.mpr ⟨p, hp, hmac.trans hq.symm⟩) hmacs.1
      · rw [if_neg hq, ih hmacs.2]
        constructor
        · rintro ⟨p, hp, h⟩
          exact ⟨p, List.mem_cons_of_mem q hp, h⟩
        · rintro ⟨p, hp, hmac, h⟩
          rcases List.mem_cons.mp hp with rfl | hp
          · exact absurd hmac hq
          · exact ⟨p, hp, hmac, h⟩

/-- Two lists with the same leases have the same table. -/
lemma tableOf_perm {ps' : List DhcpsPool} (hperm : ps'.Perm ps)
    (hmacs : (ps.map DhcpsPool.mac).Nodup) : tableOf ps' = tableOf ps := by
  have hmacs' : (ps'.map DhcpsPool.mac).Nodup := (hperm.map _).nodup_iff.mpr hmacs
  refine funext fun mac => Option.ext fun l => ?_
  rw [tableOf_eq_some_iff hmacs, tableOf_eq_some_iff hmacs']
  simp only [hperm.mem_iff]

lemma tableOf_cons (q : DhcpsPool) (qs : List DhcpsPool) :
    tableOf (q :: qs) = Function.update (tableOf qs) q.mac (some q.lease) := by
  refine funext fun mac => ?_
  rw [tableOf, List.find?_cons]
  by_cases hq : q.mac = mac
  · subst hq
    simp
  · simp [hq, Function.update_of_ne (Ne.symm hq), tableOf]

/-- A lease is taken out of the list. -/
lemma tableOf_remove {before after : List DhcpsPool} {p : DhcpsPool}
    (hmacs : ((before ++ p :: after).map DhcpsPool.mac).Nodup) :
    tableOf (before ++ after) = Function.update (tableOf (before ++ p :: after)) p.mac none := by
  have hperm : (before ++ p :: after).Perm (p :: (before ++ after)) := List.perm_middle
  have hmacs' : ((p :: (before ++ after)).map DhcpsPool.mac).Nodup :=
    (hperm.map _).nodup_iff.mp hmacs
  rw [tableOf_perm hperm hmacs', tableOf_cons, Function.update_idem, eq_comm,
    Function.update_eq_self_iff]
  rw [List.map_cons, List.nodup_cons] at hmacs'
  rw [eq_comm, tableOf_eq_none_iff]
  intro q hq heq
  exact hmacs'.1 (List.mem_map.mpr ⟨q, hq, heq⟩)

/-- A lease is put in the place of another one of the same station. -/
lemma tableOf_replace {before after : List DhcpsPool} {p q : DhcpsPool}
    (hmacs : ((before ++ p :: after).map DhcpsPool.mac).Nodup) (hq : q.mac = p.mac) :
    tableOf (before ++ q :: after)
      = Function.update (tableOf (before ++ p :: after)) p.mac (some q.lease) := by
  have hperm : ∀ r : DhcpsPool, (before ++ r :: after).Perm (r :: (before ++ after)) :=
    fun r => List.perm_middle
  have hp' : ((p :: (before ++ after)).map DhcpsPool.mac).Nodup :=
    ((hperm p).map _).nodup_iff.mp hmacs
  have hq' : ((q :: (before ++ after)).map DhcpsPool.mac).Nodup := by
    rw [List.map_cons, hq]
    exact hp'
  rw [tableOf_perm (hperm p) hp', tableOf_perm (hperm q) hq', tableOf_cons, tableOf_cons,
    Function.update_idem, hq]

lemma tableOf_nodeInsertToList {p : DhcpsPool} (hmacs : (ps.map DhcpsPool.mac).Nodup)
    (hp : ∀ q ∈ ps, q.mac ≠ p.mac) :
    tableOf (nodeInsertToList ps p) = Function.update (tableOf ps) p.mac (some p.lease) := by
  have hmacs' : ((p :: ps).map DhcpsPool.mac).Nodup := by
    rw [List.map_cons, List.nodup_cons]
    refine ⟨fun hmem => ?_, hmacs⟩
    obtain ⟨q, hq, heq⟩ := List.mem_map.mp hmem
    exact hp q hq heq
  rw [tableOf_perm (nodeInsertToList_perm ps p) hmacs', tableOf_cons]

lemma tableOf_nodeRemoveFromList (hmacs : (ps.map DhcpsPool.mac).Nodup) (mac : Mac) :
    tableOf (nodeRemoveFromList ps mac) = Function.update (tableOf ps) mac none := by
  by_cases hmem : ∃ p ∈ ps, p.mac = mac
  · obtain ⟨p, hp, hmac⟩ := hmem
    obtain ⟨q, before, after, _, hq, hsplit, herase⟩ :=
      List.exists_of_eraseP (p := fun p => decide (p.mac = mac)) hp (by simpa using hmac)
    have hqmac : q.mac = mac := by simpa using hq
    rw [nodeRemoveFromList, herase]
    subst hsplit
    rw [tableOf_remove hmacs, hqmac]
  · have hnone : ∀ p ∈ ps, p.mac ≠ mac := fun p hp h => hmem ⟨p, hp, h⟩
    rw [nodeRemoveFromList, List.eraseP_of_forall_not (by simpa using hnone), eq_comm,
      Function.update_eq_self_iff, eq_comm]
    exact tableOf_eq_none_iff.mpr hnone

/-! ## A second -/

/-- A timer that is not in its last second. -/
lemma secondsLeft_sub_one {t : UInt32} (h : t - 1 ≠ 0) :
    secondsLeft (t - 1) = secondsLeft t - 1 ∧ 1 < secondsLeft t := by
  have ht := t.toNat_lt
  have hone : (1 : UInt32).toNat = 1 := rfl
  have hne : (t - 1).toNat ≠ 0 := fun h0 => h (UInt32.toNat_inj.mp h0)
  rw [secondsLeft, secondsLeft, if_neg h]
  rw [UInt32.toNat_sub, hone] at hne ⊢
  split_ifs with h0
  · subst h0
    simp
  · have hpos : t.toNat ≠ 0 := fun h' => h0 (UInt32.toNat_inj.mp h')
    omega

lemma secondsLeft_of_sub_one {t : UInt32} (h : t - 1 = 0) : secondsLeft t = 1 := by
  obtain rfl : t = 1 := by rwa [UInt32.sub_eq_iff_eq_add, UInt32.zero_add] at h
  rfl

/-- **One second for the list is one tick for the table.** -/
lemma tableOf_decrementTimers (hmacs : (ps.map DhcpsPool.mac).Nodup) :
    tableOf (decrementTimers ps) = apply (tableOf ps) .tick := by
  induction ps with
  | nil => rfl
  | cons p ps ih =>
      rw [List.map_cons, List.nodup_cons] at hmacs
      have hnone : tableOf ps p.mac = none := by
        rw [tableOf_eq_none_iff]
        intro q hq heq
        exact hmacs.1 (List.mem_map.mpr ⟨q, hq, heq⟩)
      have htick : apply (tableOf (p :: ps)) .tick
          = Function.update (apply (tableOf ps) .tick) p.mac p.lease.tick := by
        refine funext fun mac => ?_
        rw [tableOf_cons]
        by_cases hmac : mac = p.mac
        · subst hmac
          simp [apply]
        · simp [apply, Function.update_of_ne hmac]
      rw [htick, ← ih hmacs.2]
      by_cases hp : p.leaseTimer - 1 = 0
      · have hlast : p.lease.tick = none := by
          rw [Lease.tick, DhcpsPool.lease, secondsLeft_of_sub_one hp, if_pos le_rfl]
        have hgone : apply (tableOf ps) .tick p.mac = none := by simp [apply, hnone]
        rw [decrementTimers, List.filterMap_cons_none (by rw [if_pos hp]), ← decrementTimers, hlast,
          eq_comm, Function.update_eq_self_iff, ih hmacs.2, hgone]
      · obtain ⟨hsub, hlt⟩ := secondsLeft_sub_one hp
        have hnext : p.lease.tick
            = some (DhcpsPool.lease { p with leaseTimer := p.leaseTimer - 1 }) := by
          rw [Lease.tick, DhcpsPool.lease, if_neg (not_le.mpr hlt), DhcpsPool.lease, hsub]
        rw [decrementTimers, List.filterMap_cons_some (by rw [if_neg hp]), ← decrementTimers,
          tableOf_cons, hnext]

/-! ## The lease that is given up -/

lemma foldl_min_spec (ps : List DhcpsPool) (t : UInt32) :
    let m := ps.foldl (fun t q => if q.leaseTimer < t then q.leaseTimer else t) t
    m ≤ t ∧ (∀ q ∈ ps, m ≤ q.leaseTimer) ∧ (m = t ∨ ∃ q ∈ ps, q.leaseTimer = m) := by
  induction ps generalizing t with
  | nil => exact ⟨UInt32.le_refl t, by simp, Or.inl rfl⟩
  | cons p ps ih =>
      obtain ⟨hle, hall, hmem⟩ := ih (if p.leaseTimer < t then p.leaseTimer else t)
      rw [List.foldl_cons]
      generalize List.foldl _ _ ps = m at hle hall hmem
      have hmin : m ≤ t ∧ m ≤ p.leaseTimer := by
        split_ifs at hle with hlt
        · exact ⟨UInt32.le_trans hle (UInt32.le_of_lt hlt), hle⟩
        · exact ⟨hle, UInt32.le_trans hle (UInt32.not_lt.mp hlt)⟩
      refine ⟨hmin.1, fun q hq => ?_, ?_⟩
      · rcases List.mem_cons.mp hq with rfl | hq
        · exact hmin.2
        · exact hall q hq
      · rcases hmem with heq | ⟨q, hq, heq⟩
        · split_ifs at heq with hlt
          · exact Or.inr ⟨p, List.mem_cons_self, heq.symm⟩
          · exact Or.inl heq
        · exact Or.inr ⟨q, List.mem_cons_of_mem p hq, heq⟩

/-- **The lease that is given up** is not the first of the list, and of the others it is one with
the least time left. -/
lemma killOldestDhcpsPool_spec (ps : List DhcpsPool) (hlen : 2 ≤ ps.length) :
    ∃ pre before q after, ps = pre :: before ++ q :: after ∧
      killOldestDhcpsPool ps = pre :: before ++ after ∧
      ∀ r ∈ before ++ q :: after, q.leaseTimer ≤ r.leaseTimer := by
  match ps, hlen with
  | pre :: p :: ps, _ =>
      obtain ⟨hle, hall, hmem⟩ := foldl_min_spec ps p.leaseTimer
      rw [← minTimer] at hle hall hmem
      have hexists : ∃ q ∈ p :: ps, q.leaseTimer = minTimer p ps := by
        rcases hmem with heq | ⟨q, hq, heq⟩
        · exact ⟨p, List.mem_cons_self, heq.symm⟩
        · exact ⟨q, List.mem_cons_of_mem p hq, heq⟩
      obtain ⟨q', hq', heq'⟩ := hexists
      obtain ⟨q, before, after, _, hq, hsplit, herase⟩ :=
        List.exists_of_eraseP (p := fun q => decide (q.leaseTimer = minTimer p ps)) hq'
          (by simpa using heq')
      have hqmin : q.leaseTimer = minTimer p ps := by simpa using hq
      refine ⟨pre, before, q, after, by rw [hsplit, List.cons_append], ?_, fun r hr => ?_⟩
      · rw [killOldestDhcpsPool, herase, List.cons_append]
      · rw [← hsplit] at hr
        rw [hqmin]
        rcases List.mem_cons.mp hr with rfl | hr
        · exact hle
        · exact hall r hr

end TableOf

end Chooser
