import Chooser.Dhcps.Protocol

/-!
# What the access point never does

It never gives one address to two stations, its own address to any station, or an address of another
network.  It never changes its configuration while the server runs, and it never ends a lease early
for a station that has more time left than others, apart from the lowest address, which it spares.
-/

namespace Chooser

open CStr Ip4 Tlv LeaseTable

namespace TcpipAdapter

variable {s : TcpipAdapter}

/-! ## One address, one station -/

/-- **From the time when it is switched on, the access point is a table of leases.**  Every run of
it is a legal run of the table, with as many ticks as seconds; and a station is given a lease by its
own messages only.  The addresses that are configured must leave out the last one of the network. -/
theorem initial_refines {es : List ApEvent} (hes : ∀ e ∈ es, e.Proper) :
    ∃ xs, Legal (fun _ => none) xs ∧
      (initial.run es).table = LeaseTable.run (fun _ => none) xs ∧ ticks xs = seconds es ∧
      ∀ x ∈ xs, ∃ e ∈ es, Caused e x :=
  initial_ok.run_refines initial_below hes

/-- A second that follows a discovery. -/
theorem initial_refines_second :
    ∃ xs, Legal (fun _ => none) xs ∧
      (initial.run [.start true (some initial.espIp) true, .udpInput (stationDiscover 1),
        .coarseTmr]).table = LeaseTable.run (fun _ => none) xs ∧ ticks xs = 1 ∧
      ∀ x ∈ xs, ∃ e ∈ [.start true (some initial.espIp) true, .udpInput (stationDiscover 1),
        .coarseTmr], Caused e x :=
  initial_refines fun e he => by
    simp only [List.mem_cons, List.not_mem_nil, or_false] at he
    rcases he with rfl | rfl | rfl <;> trivial

/-- Only a server that runs has leases. -/
lemma Stands.started_of_table (hs : s.Stands) {mac : Mac} {l : Lease Ip4}
    (h : s.table mac = some l) : s.dhcpsStatus = .started := by
  by_contra hidle
  rw [hs.table_of_idle hidle] at h
  cases h

lemma Stands.getIpInfo_ip (hs : s.Stands) (h : s.dhcpsStatus = .started) :
    s.getIpInfo.ip = s.dhcps.serverAddress := by
  obtain ⟨n, hn, hup, _, hserver⟩ := hs.running h
  rw [hserver, getIpInfo, hn]
  simp [hup]

/-- **In every run an address belongs to one station only**, and it is an address of the network of
the access point, from those that are leased, but not its own.  There are never more than 101.  The
addresses that are configured must leave out the last one of the network. -/
theorem addresses_unique {es : List ApEvent} (hes : ∀ e ∈ es, e.Proper) {mac : Mac} {a : Ip4}
    (h : dhcpSearchIpOnMac (initial.run es).dhcps mac = some a) :
    (∀ mac', dhcpSearchIpOnMac (initial.run es).dhcps mac' = some a → mac' = mac) ∧
      (initial.run es).dhcps.dhcpsPoll.Contains a ∧ a.net = (initial.run es).getIpInfo.ip.net ∧
      a ≠ (initial.run es).getIpInfo.ip ∧ (initial.run es).dhcps.plist.length ≤ 101 := by
  have hok : (initial.run es).Ok := initial_run_ok hes
  obtain ⟨xs, hlegal, htable, _⟩ := initial_ok.run_refines initial_below hes
  -- a legal run of the table keeps it exclusive
  have hexclusive : Exclusive (initial.run es).table := by
    rw [htable]
    exact exclusive_run (fun k k' l l' hl => nomatch hl) hlegal
  rw [dhcpSearchIpOnMac_eq] at h
  obtain ⟨l, hl, rfl⟩ := Option.map_eq_some_iff.mp h
  have hstarted := hok.started_of_table hl
  have hdhcps := hok.leases hstarted
  have hcontains : (initial.run es).dhcps.dhcpsPoll.Contains l.item := by
    obtain ⟨p, hp, _, rfl⟩ := hdhcps.table_eq_some_iff.mp hl
    exact hdhcps.contains p hp
  refine ⟨fun mac' h' => ?_, hcontains, ?_, ?_, hdhcps.length_le⟩
  · rw [dhcpSearchIpOnMac_eq] at h'
    obtain ⟨l', hl', hitem⟩ := Option.map_eq_some_iff.mp h'
    exact hexclusive mac' mac l' l hl' hl hitem
  · rw [hok.getIpInfo_ip hstarted, hcontains.net, hdhcps.serves.startNet]
  · rw [hok.getIpInfo_ip hstarted]
    intro hself
    have hlow := hcontains.start_le
    have hhigh := hcontains.le_end
    rw [hself] at hlow hhigh
    have hout := hdhcps.serves.outside
    omega

/-- The address of the first station is not that of the second. -/
theorem addresses_unique_first :
    dhcpSearchIpOnMac (initial.run [.start true (some initial.espIp) true,
        .udpInput (stationDiscover 1)]).dhcps (stationMac 2) ≠ some (.ofBytes 192 168 4 2) ∧
      (initial.run [.start true (some initial.espIp) true,
        .udpInput (stationDiscover 1)]).dhcps.plist.length ≤ 101 := by
  have hfirst : dhcpSearchIpOnMac (initial.run [.start true (some initial.espIp) true,
      .udpInput (stationDiscover 1)]).dhcps (stationMac 1) = some (.ofBytes 192 168 4 2) := by
    decide +kernel
  have hunique := addresses_unique (fun e he => ?_) hfirst
  · refine ⟨fun h => absurd (hunique.1 _ h) (by decide), hunique.2.2.2.2⟩
  · simp only [List.mem_cons, List.not_mem_nil, or_false] at he
    rcases he with rfl | rfl <;> trivial

/-! ## While the server runs -/

lemma Stands.run_frozen (hs : s.Stands) (h : s.dhcpsStatus = .started) {es : List ApEvent}
    (hgoes : .stop ∉ es ∧ .dhcpsStop ∉ es) :
    (s.run es).dhcpsStatus = .started ∧ (s.run es).espNetif = s.espNetif ∧
      (s.run es).espIp = s.espIp ∧
      (s.run es).dhcps.config
        = { s.dhcps.config with dnsServer := (s.run es).dhcps.dnsServer } := by
  induction es generalizing s with
  | nil => exact ⟨h, rfl, rfl, rfl⟩
  | cons e es ih =>
      obtain ⟨hstop, hdhcpsStop⟩ := hgoes
      rw [List.mem_cons, not_or] at hstop hdhcpsStop
      obtain ⟨d, hstep, hserver⟩ := hs.step_of_started h (Ne.symm hstop.1) (Ne.symm hdhcpsStop.1)
      have hs₁ := hs.step e
      show ((s.step e).run es).dhcpsStatus = .started ∧ ((s.step e).run es).espNetif = s.espNetif ∧
        ((s.step e).run es).espIp = s.espIp ∧ ((s.step e).run es).dhcps.config
          = { s.dhcps.config with dnsServer := ((s.step e).run es).dhcps.dnsServer }
      rw [hstep] at hs₁ ⊢
      obtain ⟨h₂, hnetif₂, hip₂, hconfig₂⟩ := ih hs₁ h ⟨hstop.2, hdhcpsStop.2⟩
      -- the step may have set the name server, which is overwritten here
      have hframe : ∀ ip,
          { d.config with dnsServer := ip } = { s.dhcps.config with dnsServer := ip } :=
        fun ip => by rw [hserver.config]
      exact ⟨h₂, hnetif₂, hip₂, hconfig₂.trans (hframe _)⟩

/-- **While the server runs its configuration is frozen.**  Unless the server or the interface is
stopped, nothing that is called and nothing that is received changes the interface, its address, the
addresses that are leased, for how long, or what else is offered; only a name server may be set. -/
theorem running_frozen {before es : List ApEvent}
    (h : (initial.run before).dhcpsStatus = .started) (hgoes : .stop ∉ es ∧ .dhcpsStop ∉ es) :
    ((initial.run before).run es).dhcpsStatus = .started ∧
      ((initial.run before).run es).espNetif = (initial.run before).espNetif ∧
      ((initial.run before).run es).espIp = (initial.run before).espIp ∧
      ((initial.run before).run es).dhcps.config = { (initial.run before).dhcps.config with
        dnsServer := ((initial.run before).run es).dhcps.dnsServer } :=
  (initial_stands.run before).run_frozen h hgoes

/-- A call that would change the address is refused. -/
theorem running_frozen_setIpInfo :
    ((initial.run [.start true (some initial.espIp) true]).run
      [.setIpInfo (some ⟨.ofBytes 10 0 0 1, .ofBytes 255 0 0 0, .ofBytes 10 0 0 1⟩)]).espIp
      = (initial.run [.start true (some initial.espIp) true]).espIp :=
  (running_frozen (by decide) (by simp)).2.2.1

/-! ## The lease that is given up -/

/-- A lease that a second leaves. -/
lemma timer_of_mem_decrementTimers {ps : List DhcpsPool} {p : DhcpsPool}
    (h : p ∈ decrementTimers ps) : secondsLeft p.leaseTimer = p.leaseTimer.toNat := by
  obtain ⟨q, _, hq⟩ := List.mem_filterMap.mp h
  split_ifs at hq with hlast
  rw [← Option.some.inj hq, secondsLeft, if_neg hlast]

/-- What is given up, and what stays. -/
lemma Ok.gives_up (hs : s.Ok) {mac : Mac} {l : Lease Ip4} (hl : s.table mac = some l)
    (hleft : 1 < l.left) (hgone : s.coarseTmr.table mac = none) :
    maxStationNum ≤ (decrementTimers s.dhcps.plist).length ∧
      (∃ first l₀, s.table first = some l₀ ∧ first ≠ mac ∧
        ∀ k l', s.table k = some l' → 1 < l'.left → k ≠ first →
          l₀.item < l'.item ∧ l.left ≤ l'.left) ∧
      ∀ k, k ≠ mac → s.coarseTmr.table k = apply s.table .tick k := by
  have hok := hs.leases (hs.started_of_table hl)
  have hleases := hok.toLeasesOk.of_keys (decrementTimers_keys s.dhcps.plist)
  have htick : tableOf (decrementTimers s.dhcps.plist) = apply s.table .tick :=
    tableOf_decrementTimers hok.macs
  have hlive : ∀ k l', s.table k = some l' → 1 < l'.left →
      tableOf (decrementTimers s.dhcps.plist) k = some { l' with left := l'.left - 1 } := by
    intro k l' hl' hleft'
    rw [htick]
    simp [apply, hl', Lease.tick, not_le.mpr hleft']
  obtain ⟨_, ⟨_, htable⟩ | ⟨pre, before, q, after, hmany, hsplit, hmin, _, htable⟩⟩ :=
    Dhcps.dhcpsCoarseTmr_spec hok
  · -- no lease is given up
    have hkept : s.coarseTmr.table mac = tableOf (decrementTimers s.dhcps.plist) mac := by
      rw [htick]
      exact congrFun htable mac
    rw [hkept, hlive mac l hl hleft] at hgone
    cases hgone
  · have hother : ∀ k, k ≠ q.mac → s.coarseTmr.table k = apply s.table .tick k := by
      intro k hk
      refine (congrFun htable k).trans ?_
      rw [run_cons, run_cons, run_nil, apply, Function.update_of_ne hk]
      rfl
    have hentry : ∀ p ∈ decrementTimers s.dhcps.plist,
        tableOf (decrementTimers s.dhcps.plist) p.mac = some p.lease :=
      fun p hp => (tableOf_eq_some_iff hleases.macs).mpr ⟨p, hp, rfl, rfl⟩
    have hpre : pre ∈ decrementTimers s.dhcps.plist := hsplit ▸ List.mem_cons_self
    have hq : q ∈ decrementTimers s.dhcps.plist :=
      hsplit ▸ List.mem_append_right _ List.mem_cons_self
    obtain rfl : q.mac = mac := by
      by_contra hne
      rw [hother mac (Ne.symm hne), ← htick, hlive mac l hl hleft] at hgone
      cases hgone
    have hqlease : q.lease = { l with left := l.left - 1 } :=
      Option.some.inj ((hentry q hq).symm.trans (hlive q.mac l hl hleft))
    have hqleft : q.leaseTimer.toNat = l.left - 1 := by
      rw [← timer_of_mem_decrementTimers hq]
      exact congrArg Lease.left hqlease
    obtain ⟨l₀, hl₀, _, hprelease⟩ := apply_tick_eq_some (htick ▸ hentry pre hpre)
    have hsorted := hleases.sorted
    have hmacs := hleases.macs
    rw [hsplit, List.cons_append] at hsorted hmacs
    rw [List.map_cons, List.nodup_cons] at hmacs
    refine ⟨hmany, ⟨pre.mac, l₀, hl₀, ?_, fun k l' hl' hleft' hk => ?_⟩, hother⟩
    · intro hsame
      exact hmacs.1 (List.mem_map.mpr ⟨q, List.mem_append_right _ List.mem_cons_self, hsame.symm⟩)
    · obtain ⟨p, hp, rfl, hlease⟩ := (tableOf_eq_some_iff hleases.macs).mp (hlive k l' hl' hleft')
      have hleft'' : p.leaseTimer.toNat = l'.left - 1 := by
        rw [← timer_of_mem_decrementTimers hp]
        exact congrArg Lease.left hlease
      have hrest : p ∈ before ++ q :: after := by
        rw [hsplit, List.cons_append] at hp
        rcases List.mem_cons.mp hp with rfl | hp
        · exact absurd rfl hk
        · exact hp
      have hitem : l₀.item = pre.ip := (congrArg Lease.item hprelease).symm
      have hitem' : p.ip = l'.item := congrArg Lease.item hlease
      have htimer := UInt32.le_iff_toNat_le.mp (hmin p hrest)
      refine ⟨?_, by omega⟩
      rw [hitem, ← hitem']
      exact List.rel_of_pairwise_cons hsorted hrest

/-- **A lease that is given up early** is one of eight or more.  It is not that of the lowest
address, and all others but that one have at least as much time left; and it is the only one.  The
addresses that were configured must leave out the last one of the network. -/
theorem second_gives_up {before : List ApEvent} (hbefore : ∀ e ∈ before, e.Proper) {mac : Mac}
    {l : Lease Ip4} (hl : (initial.run before).table mac = some l) (hleft : 1 < l.left)
    (hgone : (initial.run before).coarseTmr.table mac = none) :
    maxStationNum ≤ (decrementTimers (initial.run before).dhcps.plist).length ∧
      (∃ first l₀, (initial.run before).table first = some l₀ ∧ first ≠ mac ∧
        ∀ k l', (initial.run before).table k = some l' → 1 < l'.left → k ≠ first →
          l₀.item < l'.item ∧ l.left ≤ l'.left) ∧
      ∀ k, k ≠ mac →
        (initial.run before).coarseTmr.table k = apply (initial.run before).table .tick k :=
  (initial_run_ok hbefore).gives_up hl hleft hgone

/-- Eight stations look for an address, and one lease is given up again. -/
theorem second_gives_up_eight :
    let s := initial.run (.start true (some initial.espIp) true ::
      [1, 2, 3, 4, 5, 6, 7, 8].map fun n => .udpInput (stationDiscover n))
    maxStationNum ≤ (decrementTimers s.dhcps.plist).length ∧
      (∃ first l₀, s.table first = some l₀ ∧ first ≠ stationMac 2 ∧
        ∀ k l', s.table k = some l' → 1 < l'.left → k ≠ first →
          l₀.item < l'.item ∧ 7200 ≤ l'.left) ∧
      ∀ k, k ≠ stationMac 2 → s.coarseTmr.table k = apply s.table .tick k :=
  second_gives_up (l := ⟨.ofBytes 192 168 4 3, 7200⟩)
    (fun e he => by
      rcases List.mem_cons.mp he with rfl | he
      · trivial
      · obtain ⟨n, _, rfl⟩ := List.mem_map.mp he
        trivial)
    (by decide +kernel) (by decide) (by decide +kernel)

end TcpipAdapter

end Chooser
