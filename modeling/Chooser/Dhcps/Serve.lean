import Chooser.Dhcps.Table

/-!
# What a message and a second do

For each of them: the invariant is kept, the configuration stays, and the table of leases changes by
legal acts of the station that sent the message, or by a tick.
-/

namespace Chooser

open CStr Ip4 LeaseTable

/-- What the server was configured with. -/
def Dhcps.config (s : Dhcps) : Dhcps :=
  { s with clientAddress := 0, clientAddressPlus := 0, plist := [], renew := false }

/-- The seconds for which an address is leased. -/
def Dhcps.duration (s : Dhcps) : ℕ := secondsLeft s.leaseTimer

section Serve

variable {s s' : Dhcps} {mac : Mac}

lemma Dhcps.poll_of_config (h : s'.config = s.config) : s'.dhcpsPoll = s.dhcpsPoll :=
  show s'.config.dhcpsPoll = s.config.dhcpsPoll from congrArg _ h

lemma Dhcps.serverAddress_of_config (h : s'.config = s.config) :
    s'.serverAddress = s.serverAddress :=
  show s'.config.serverAddress = s.config.serverAddress from congrArg _ h

lemma Dhcps.duration_of_config (h : s'.config = s.config) : s'.duration = s.duration :=
  show s'.config.duration = s.config.duration from congrArg _ h

/-! ## The configuration stays -/

lemma Dhcps.findAddress_config (s : Dhcps) (mac : Mac) (ciaddr : Bytes) :
    (s.findAddress mac ciaddr).1.config = s.config := by
  unfold Dhcps.findAddress
  dsimp only
  split
  · rfl
  · split_ifs <;> rfl

lemma Dhcps.parseMsg_config (s : Dhcps) (m : DhcpsMsg) (behind : ℕ → UInt8) (len : ℕ) :
    (s.parseMsg m behind len).1.config = s.config := by
  have hfind := s.findAddress_config m.mac m.ciaddr
  unfold Dhcps.parseMsg
  dsimp only
  split_ifs <;> first | exact hfind | rfl

/-- **No datagram changes the configuration.** -/
lemma Dhcps.handleDhcp_config (s : Dhcps) (gw : Ip4) (p : Datagram) :
    (s.handleDhcp gw p).1.config = s.config := by
  rw [Dhcps.handleDhcp]
  split_ifs
  · rfl
  · exact s.parseMsg_config p.message p.behind (p.totLen - 240)

/-- A second does not change it either. -/
lemma Dhcps.dhcpsCoarseTmr_config (s : Dhcps) : s.dhcpsCoarseTmr.config = s.config := by
  rw [Dhcps.dhcpsCoarseTmr]
  split_ifs <;> rfl

/-! ## The leases -/

lemma Dhcps.Ok.table_eq_some_iff (hs : s.Ok) {l : Lease Ip4} :
    s.table mac = some l ↔ ∃ p ∈ s.plist, p.mac = mac ∧ p.lease = l :=
  tableOf_eq_some_iff hs.macs

/-- An address occurs once. -/
lemma Dhcps.Ok.eq_of_ip_eq (hs : s.Ok) {p q : DhcpsPool} (hp : p ∈ s.plist) (hq : q ∈ s.plist)
    (h : p.ip = q.ip) : p = q := by
  have hnodup : (s.plist.map DhcpsPool.ip).Nodup := by
    rw [List.Nodup, List.pairwise_map]
    refine hs.sorted.imp fun {a b} hlt heq => ?_
    rw [heq] at hlt
    exact UInt32.lt_irrefl _ hlt
  exact List.inj_on_of_nodup_map hnodup hp hq h

/-- **No address is leased to two stations.** -/
lemma Dhcps.Ok.exclusive (hs : s.Ok) : Exclusive s.table := by
  intro k k' l l' h h' hitem
  obtain ⟨p, hp, rfl, rfl⟩ := hs.table_eq_some_iff.mp h
  obtain ⟨q, hq, rfl, rfl⟩ := hs.table_eq_some_iff.mp h'
  rw [hs.eq_of_ip_eq hp hq hitem]

/-! ## Finding an address -/

/-- **Finding an address for a station** gives the station a lease of the full duration: the one
that it had, or one of an address that nobody has.  If that is not possible, nothing changes. -/
lemma Dhcps.findAddress_spec (hs : s.Ok) (mac : Mac) (ciaddr : Bytes) :
    (s.findAddress mac ciaddr).1.Ok ∧
    ((∃ a, s.dhcpsPoll.Contains a ∧ Allows s.table (.hold mac a s.duration) ∧
        (s.findAddress mac ciaddr).1.clientAddress = a ∧
        (s.findAddress mac ciaddr).1.table = apply s.table (.hold mac a s.duration) ∧
        (s.findAddress mac ciaddr).2 = true ∧
        ((s.findAddress mac ciaddr).1.renew = true ↔
          ∃ l, s.table mac = some l ∧ l.item.bytes = ciaddr)) ∨
      (s.table mac = none ∧
        (∀ a, s.dhcpsPoll.Contains a → ∃ k l, s.table k = some l ∧ l.item = a) ∧
        s.dhcpsPoll.endIp < (s.findAddress mac ciaddr).1.clientAddress ∧
        (s.findAddress mac ciaddr).1.table = s.table ∧
        (s.findAddress mac ciaddr).2 = false)) := by
  by_cases hknown : ∃ p ∈ s.plist, p.mac = mac
  · obtain ⟨p, hp, rfl⟩ := hknown
    obtain ⟨before, after, hlist⟩ := List.append_of_mem hp
    obtain ⟨plus, hplus, heq⟩ := Dhcps.findAddress_known ciaddr hs hlist rfl
    have hmacs : ((before ++ p :: after).map DhcpsPool.mac).Nodup := hlist ▸ hs.macs
    have hkeys : (before ++ { p with leaseTimer := s.leaseTimer } :: after).map DhcpsPool.key
        = s.plist.map DhcpsPool.key := by
      rw [hlist, List.map_append, List.map_cons, List.map_append, List.map_cons]
      rfl
    have hentry : s.table p.mac = some p.lease := hs.table_eq_some_iff.mpr ⟨p, hp, rfl, rfl⟩
    rw [heq]
    refine ⟨?_, Or.inl ⟨p.ip, hs.contains p hp, ⟨?_, ?_⟩, rfl, ?_, rfl, ?_⟩⟩
    · exact ⟨hs.toLeasesOk.of_keys (hkeys ▸ List.Sublist.refl _), hs.serves, hplus⟩
    · intro l hl
      rw [hentry] at hl
      exact (congrArg Lease.item (Option.some.inj hl)).symm
    · intro k l hl hitem
      exact hs.exclusive k p.mac l p.lease hl hentry hitem
    · show tableOf _ = apply (tableOf s.plist) _
      rw [hlist]
      exact tableOf_replace hmacs rfl
    · rw [hentry]
      constructor
      · intro h
        exact ⟨p.lease, rfl, of_decide_eq_true h⟩
      · rintro ⟨l, hl, hbytes⟩
        obtain rfl := Option.some.inj hl
        exact decide_eq_true hbytes
  · have hmac : ∀ p ∈ s.plist, p.mac ≠ mac := fun p hp h => hknown ⟨p, hp, h⟩
    have hnone : s.table mac = none := tableOf_eq_none_iff.mpr hmac
    rcases Dhcps.findAddress_unknown ciaddr hs hmac with
      ⟨a, plus, ha, hfree, hplus, heq⟩ | ⟨hfull, a, ha, heq⟩
    · have hip := hs.free_of_freeOctet hfree
      rw [heq]
      refine ⟨?_, Or.inl ⟨a, ha, ⟨?_, ?_⟩, rfl, ?_, rfl, ?_⟩⟩
      · exact ⟨hs.toLeasesOk.insert ha hip hmac, hs.serves, hplus⟩
      · intro l hl
        rw [hnone] at hl
        cases hl
      · intro k l hl hitem
        obtain ⟨p, hp, _, rfl⟩ := hs.table_eq_some_iff.mp hl
        exact absurd hitem (hip p hp)
      · exact tableOf_nodeInsertToList hs.macs hmac
      · rw [hnone]
        simp
    · rw [heq]
      refine ⟨⟨hs.toLeasesOk, hs.serves, hs.serves.contains_startIp⟩,
        Or.inr ⟨hnone, fun a ha => ?_, ha, rfl, rfl⟩⟩
      obtain ⟨p, hp, rfl⟩ := hs.freeOctet_eq_none_iff.mp hfull a ha
      exact ⟨p.mac, p.lease, hs.table_eq_some_iff.mpr ⟨p, hp, rfl, rfl⟩, rfl⟩

/-! ## A message -/

/-- **What becomes of a message** of a station.  `renew` says that the station asks for the address
that it has. -/
inductive Dhcps.Served (s : Dhcps) (mac : Mac) (ciaddr : Bytes) (mem : ℕ → UInt8) (len : ℕ) :
    Dhcps → DhcpsState → Prop where
  /-- the station has a lease now, and the options say what it wanted -/
  | leased {s' : Dhcps} {ret : DhcpsState} (a : Ip4) (renew : Bool)
      (contains : s.dhcpsPoll.Contains a) (ne : a ≠ 0)
      (allows : Allows s.table (.hold mac a s.duration))
      (renew_iff : renew = true ↔ ∃ l, s.table mac = some l ∧ l.item.bytes = ciaddr)
      (wish : ret = parseOptions a renew mem 240 len) (kept : ret ≠ .release)
      (client : s'.clientAddress = a)
      (table : s'.table = apply s.table (.hold mac a s.duration)) :
      Served s mac ciaddr mem len s' ret
  /-- the station gives its address back, or has got one that must not be given -/
  | dropped {s' : Dhcps} {ret : DhcpsState} (a : Ip4) (contains : s.dhcpsPoll.Contains a)
      (allows : Allows s.table (.hold mac a s.duration))
      (table : s'.table = run s.table [.hold mac a s.duration, .drop mac])
      (answer : (∃ renew, ret = .release ∧ parseOptions a renew mem 240 len = .release) ∨
        ret = .nak ∧ a = 0) :
      Served s mac ciaddr mem len s' ret
  /-- all addresses are leased to other stations -/
  | full {s' : Dhcps} {ret : DhcpsState} (unknown : s.table mac = none)
      (all : ∀ a, s.dhcpsPoll.Contains a → ∃ k l, s.table k = some l ∧ l.item = a)
      (refused : ret = .nak) (table : s'.table = s.table) :
      Served s mac ciaddr mem len s' ret

/-- **A message** keeps the invariant, and is served. -/
theorem Dhcps.parseMsg_spec (hs : s.Ok) {m : DhcpsMsg} (behind : ℕ → UInt8) (len : ℕ)
    (hcookie : m.options.take 4 = magicCookie) :
    (s.parseMsg m behind len).1.Ok ∧
      s.Served m.mac m.ciaddr (m.memory behind) len (s.parseMsg m behind len).1
        (s.parseMsg m behind len).2 := by
  obtain ⟨hok, hcases⟩ := Dhcps.findAddress_spec hs m.mac m.ciaddr
  have hpoll := Dhcps.poll_of_config (s.findAddress_config m.mac m.ciaddr)
  rw [Dhcps.parseMsg, if_pos hcookie]
  generalize s.findAddress m.mac m.ciaddr = f at hok hcases hpoll
  obtain ⟨t, pnode⟩ := f
  dsimp only at hok hcases hpoll ⊢
  have hremoved : LeasesOk t.dhcpsPoll (nodeRemoveFromList t.plist m.mac) :=
    hok.toLeasesOk.sublist List.eraseP_sublist
  rcases hcases with ⟨a, ha, hallows, rfl, htable, rfl, hrenew⟩ | ⟨hnone, hall, hend, htable, rfl⟩
  · have hgone : tableOf (nodeRemoveFromList t.plist m.mac)
        = run s.table [.hold m.mac t.clientAddress s.duration, .drop m.mac] := by
      rw [tableOf_nodeRemoveFromList hok.macs, run_cons, run_cons, run_nil, ← htable]
      rfl
    have hin : ¬ t.clientAddress > t.dhcpsPoll.endIp := by
      rw [gt_iff_lt, hpoll, ← hpoll, hok.serves.endIp_lt_iff (hpoll ▸ ha.net), not_lt, hpoll]
      exact ha.le_end
    by_cases hzero : t.clientAddress = 0
    · rw [if_pos (Or.inr hzero), if_pos rfl]
      refine ⟨⟨hremoved, hok.serves, hok.plus⟩, ?_⟩
      exact .dropped _ ha hallows hgone (Or.inr ⟨rfl, hzero⟩)
    · rw [if_neg (not_or.mpr ⟨hin, hzero⟩)]
      by_cases hrelease : parseOptions t.clientAddress t.renew (m.memory behind) 240 len = .release
      · rw [if_pos hrelease, if_pos rfl]
        refine ⟨⟨hremoved, hok.serves, hok.plus⟩, ?_⟩
        exact .dropped _ ha hallows hgone (Or.inl ⟨t.renew, hrelease, hrelease⟩)
      · rw [if_neg hrelease]
        exact ⟨hok, .leased _ _ ha hzero hallows hrenew rfl hrelease rfl htable⟩
  · rw [if_pos (Or.inl (hpoll ▸ hend)), if_neg (by decide)]
    exact ⟨hok, .full hnone hall rfl htable⟩

/-- The message reaches the leases. -/
def Datagram.Reaches (p : Datagram) : Prop :=
  p.pieces ≠ [] ∧ p.allocates = true ∧ p.message.options.take 4 = magicCookie

lemma Dhcps.handleDhcp_of_not_reaches (s : Dhcps) (gw : Ip4) {p : Datagram} (hp : ¬ p.Reaches) :
    s.handleDhcp gw p = (s, none) := by
  rw [Dhcps.handleDhcp]
  by_cases hdrop : p.pieces = [] ∨ p.allocates = false
  · rw [if_pos hdrop]
  · obtain ⟨hpieces, hallocates⟩ := not_or.mp hdrop
    have hcookie : p.message.options.take 4 ≠ magicCookie :=
      fun h => hp ⟨hpieces, by simpa using hallocates, h⟩
    rw [if_neg hdrop, Dhcps.parseMsg, if_neg hcookie]
    rfl

lemma Dhcps.handleDhcp_of_reaches (s : Dhcps) (gw : Ip4) {p : Datagram} (hp : p.Reaches) :
    s.handleDhcp gw p =
      ((s.parseMsg p.message p.behind (p.totLen - 240)).1,
        (s.parseMsg p.message p.behind (p.totLen - 240)).1.answer gw p
          (s.parseMsg p.message p.behind (p.totLen - 240)).2) := by
  obtain ⟨hpieces, hallocates, _⟩ := hp
  rw [Dhcps.handleDhcp, if_neg (by simp [hpieces, hallocates])]

/-- **Any datagram** keeps the invariant. -/
lemma Dhcps.Ok.handleDhcp (hs : s.Ok) (gw : Ip4) (p : Datagram) : (s.handleDhcp gw p).1.Ok := by
  by_cases hp : p.Reaches
  · rw [Dhcps.handleDhcp_of_reaches s gw hp]
    exact (Dhcps.parseMsg_spec hs p.behind (p.totLen - 240) hp.2.2).1
  · rw [Dhcps.handleDhcp_of_not_reaches s gw hp]
    exact hs

/-! ## A second -/

/-- There are never more leases than addresses. -/
lemma Dhcps.Ok.length_le (hs : s.Ok) : s.plist.length ≤ 101 := by
  have hnodup : (octets s.plist).Nodup := hs.octets_ok.1.imp fun hlt => hlt.ne
  have hsub : (octets s.plist).toFinset ⊆
      Finset.Icc s.dhcpsPoll.startIp.octet s.dhcpsPoll.endIp.octet := by
    intro x hx
    obtain ⟨p, hp, rfl⟩ := List.mem_map.mp (List.mem_toFinset.mp hx)
    exact Finset.mem_Icc.mpr ⟨(hs.contains p hp).start_le, (hs.contains p hp).le_end⟩
  have hcard := Finset.card_le_card hsub
  rw [List.toFinset_card_of_nodup hnodup, Nat.card_Icc, octets, List.length_map] at hcard
  have hsize := hs.serves.size
  omega

/-- **A second.** All leases get older, and one of them may be given up: of all but the lease of the
lowest address, one with the least time left, and only if there are eight or more. -/
theorem Dhcps.dhcpsCoarseTmr_spec (hs : s.Ok) :
    s.dhcpsCoarseTmr.Ok ∧
      ((s.dhcpsCoarseTmr.plist = decrementTimers s.plist ∧
          s.dhcpsCoarseTmr.table = apply s.table .tick) ∨
        ∃ pre before q after, 8 ≤ (decrementTimers s.plist).length ∧
          decrementTimers s.plist = pre :: before ++ q :: after ∧
          (∀ r ∈ before ++ q :: after, q.leaseTimer ≤ r.leaseTimer) ∧
          s.dhcpsCoarseTmr.plist = pre :: before ++ after ∧
          s.dhcpsCoarseTmr.table = run s.table [.tick, .drop q.mac]) := by
  have hleases := hs.toLeasesOk.of_keys (decrementTimers_keys s.plist)
  have htick := tableOf_decrementTimers hs.macs
  have hlen : (decrementTimers s.plist).length ≤ 101 := by
    have hkeys := (decrementTimers_keys s.plist).length_le
    rw [List.length_map, List.length_map] at hkeys
    exact hkeys.trans hs.length_le
  rw [Dhcps.dhcpsCoarseTmr, Nat.mod_eq_of_lt (by omega)]
  split_ifs with hmany
  · obtain ⟨pre, before, q, after, hsplit, hkill, hmin⟩ :=
      killOldestDhcpsPool_spec (decrementTimers s.plist) (le_trans (by decide) hmany)
    refine ⟨⟨hleases.sublist (killOldestDhcpsPool_sublist _), hs.serves, hs.plus⟩,
      Or.inr ⟨pre, before, q, after, hmany, hsplit, hmin, hkill, ?_⟩⟩
    show tableOf (killOldestDhcpsPool (decrementTimers s.plist)) = _
    have hmacs : (((pre :: before) ++ q :: after).map DhcpsPool.mac).Nodup := hsplit ▸ hleases.macs
    have hremove := tableOf_remove hmacs
    rw [hkill, hremove, ← hsplit, htick]
    rfl
  · exact ⟨⟨hleases, hs.serves, hs.plus⟩, Or.inl ⟨rfl, htick⟩⟩

end Serve

end Chooser
