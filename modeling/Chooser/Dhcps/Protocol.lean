import Chooser.Dhcps.Promise
import Chooser.Dhcps.Wire

/-!
# The protocol between the access point and its stations

What the stations can rely on, over all runs of the access point: no two of them have one address,
what is offered is acknowledged, a lease is kept for the time that was announced, and an address
that is no longer used becomes free.
-/

namespace Chooser

open CStr Ip4 Tlv LeaseTable

/-! ## The access point -/

/-- The access point as it is started first, with its addresses. -/
def accessPoint : TcpipAdapter :=
  .run .initial [.start true (some TcpipAdapter.initial.espIp) true]

/-- It has been started, with the addresses that it has by itself. -/
lemma accessPoint_proper : ∀ e ∈ [.start true (some TcpipAdapter.initial.espIp) true],
    ApEvent.Proper e := by
  intro e he
  rw [List.mem_singleton.mp he]
  trivial

lemma accessPoint_ok : accessPoint.Ok := TcpipAdapter.initial_run_ok accessPoint_proper

/-- It offers its first address to the first station. -/
lemma accessPoint_offers : ∃ r, (accessPoint.udpInput (stationDiscover 1)).2 = some r ∧
    r.Grants (.ofBytes 192 168 4 2) ∧ r.leaseSeconds = 7200 := by
  have hany : (accessPoint.udpInput (stationDiscover 1)).2.any (fun r =>
      r.yiaddr = (Ip4.ofBytes 192 168 4 2).bytes ∧ messageType r.options = dhcpOffer ∧
        r.leaseSeconds = 7200) = true := by
    decide +kernel
  obtain ⟨r, hr, hgrants⟩ := (Option.any_eq_true _ _).mp hany
  obtain ⟨haddr, htype, htime⟩ := of_decide_eq_true hgrants
  exact ⟨r, hr, ⟨haddr, Or.inl htype⟩, htime⟩

/-- The next second spares the lease. -/
lemma accessPoint_spared : TcpipAdapter.Spared (stationDiscover 1).message.mac
    (accessPoint.udpInput (stationDiscover 1)).1 [.coarseTmr] := by
  have hfew : (decrementTimers (accessPoint.udpInput (stationDiscover 1)).1.dhcps.plist).length
      < maxStationNum := by
    decide +kernel
  exact ⟨hfew, trivial⟩

/-- The message of a station has the options that it is made of. -/
lemma stationRequest_carries : (stationRequest 1 (.ofBytes 192 168 4 2)).Carries
    [addMsgType dhcpRequest, addReqIpaddr (.ofBytes 192 168 4 2)] where
  readable := by
    refine ⟨fun x hx => ?_, fun x hx h => ?_, fun x hx h => ?_⟩ <;>
      rcases List.mem_cons.mp hx with rfl | hx
    · exact (by decide : dhcpOptionMsgType ≠ dhcpOptionEnd)
    · rw [List.mem_singleton.mp hx]
      exact (by decide : dhcpOptionReqIpaddr ≠ dhcpOptionEnd)
    · exact List.cons_ne_nil _ _
    · rw [List.mem_singleton.mp hx]
      exact List.cons_ne_nil _ _
    · cases h
    · rw [List.mem_singleton.mp hx]
      exact le_rfl
  bytes := ⟨List.replicate 298 0, by decide +kernel⟩
  len := by decide +kernel

/-! ## Grants -/

/-- **What an offer or an acknowledgement says about the access point.** -/
structure TcpipAdapter.Granted (s : TcpipAdapter) (p : Datagram) (r : Reply) (a : Ip4) : Prop where
  started : s.dhcpsStatus = .started
  reaches : p.Reaches
  contains : s.dhcps.dhcpsPoll.Contains a
  ne : a ≠ 0
  allows : Allows s.table (.hold p.message.mac a s.dhcps.duration)
  table : (s.udpInput p).1.table = apply s.table (.hold p.message.mac a s.dhcps.duration)
  running : (s.udpInput p).1.dhcpsStatus = .started
  duration : (s.udpInput p).1.dhcps.duration = s.dhcps.duration
  seconds : r.leaseSeconds ≤ s.dhcps.duration
  xid : r.xid = p.message.xid

namespace TcpipAdapter

variable {s : TcpipAdapter} {p q : Datagram} {r r' : Reply} {a b : Ip4}

lemma toNat_le_secondsLeft (t : UInt32) : t.toNat ≤ secondsLeft t := by
  have ht := t.toNat_lt
  unfold secondsLeft
  split_ifs <;> omega

lemma Stands.started_of_reply (hs : s.Stands) (h : (s.udpInput p).2 = some r) :
    s.dhcpsStatus = .started := by
  by_contra hidle
  rw [hs.udpInput_idle hidle] at h
  cases h

lemma Ok.granted (hs : s.Ok) (h : (s.udpInput p).2 = some r) (hr : r.Grants a) :
    s.Granted p r a := by
  have hstarted := hs.started_of_reply h
  have hok := hs.leases hstarted
  have hreaches : p.Reaches := by
    by_contra hp
    rw [hs.udpInput_eq hstarted, Dhcps.handleDhcp_of_not_reaches _ _ hp] at h
    cases h
  obtain ⟨_, hserved⟩ := Dhcps.parseMsg_spec hok p.behind (p.totLen - 240) hreaches.2.2
  have hduration := Dhcps.duration_of_config
    (s.dhcps.parseMsg_config p.message p.behind (p.totLen - 240))
  have heq := hs.udpInput_eq hstarted p
  rw [Dhcps.handleDhcp_of_reaches _ _ hreaches] at heq
  generalize s.dhcps.parseMsg p.message p.behind (p.totLen - 240) = o at hserved hduration heq
  obtain ⟨d, ret⟩ := o
  dsimp only at hserved hduration heq
  have htable : (s.udpInput p).1.table = d.table := by rw [heq]; rfl
  rw [heq] at h
  obtain ⟨hret, rfl, hxid, _, hseconds⟩ := Dhcps.answer_grants h hr
  cases hserved with
  | leased b renew contains ne allows renew_iff wish kept client table =>
      subst client
      refine ⟨hstarted, hreaches, contains, ne, allows, htable.trans table, ?_, ?_, ?_, hxid⟩
      · rw [heq]
        exact hstarted
      · rw [heq]
        exact hduration
      · rw [hseconds, ← hduration]
        exact toNat_le_secondsLeft _
  | dropped b contains allows table answer =>
      rcases answer with ⟨_, hrelease, _⟩ | ⟨hnak, _⟩
      · rw [hrelease] at hret
        rcases hret with hret | hret <;> cases hret
      · rw [hnak] at hret
        rcases hret with hret | hret <;> cases hret
  | full unknown all refused table =>
      rw [refused] at hret
      rcases hret with hret | hret <;> cases hret

/-- The station has a lease of the address then, for the whole time. -/
lemma Granted.entry (h : s.Granted p r a) :
    (s.udpInput p).1.table p.message.mac = some ⟨a, s.dhcps.duration⟩ := by
  rw [h.table, apply, Function.update_self]

/-- **A lease is kept from a grant on.** -/
lemma Ok.kept_from_grant (hs : s.Ok) (h : s.Granted p r a) {es : List ApEvent}
    (hspared : Spared p.message.mac (s.udpInput p).1 es) (htime : seconds es < r.leaseSeconds) :
    ((s.udpInput p).1.run es).Ok ∧ ((s.udpInput p).1.run es).dhcpsStatus = .started ∧
      ∃ l, ((s.udpInput p).1.run es).table p.message.mac = some l ∧ l.item = a := by
  obtain ⟨hok, hrunning, l, hl, hitem, _⟩ := (hs.udpInput p).run_kept h.running hspared h.entry h.ne
    le_rfl h.duration.ge (htime.trans_le h.seconds)
  exact ⟨hok, hrunning, l, hl, hitem⟩

/-- **The promise of a lease.** A station is granted an address.  As long as its lease lasts, and
whatever happens meanwhile except what ends leases, any later grant is of this address if and only
if it is to this station. -/
theorem lease_promise (hs : s.Ok) (hreply : (s.udpInput p).2 = some r) (hr : r.Grants a)
    {es : List ApEvent} (hspared : Spared p.message.mac (s.udpInput p).1 es)
    (htime : seconds es < r.leaseSeconds)
    (hreply' : (((s.udpInput p).1.run es).udpInput q).2 = some r') (hr' : r'.Grants b) :
    b = a ↔ q.message.mac = p.message.mac := by
  obtain ⟨hok, _, l, hl, rfl⟩ := hs.kept_from_grant (hs.granted hreply hr) hspared htime
  obtain ⟨hsame, hother⟩ := (hok.granted hreply' hr').allows
  constructor
  · rintro rfl
    exact (hother _ l hl rfl).symm
  · intro hmac
    exact (hsame l (hmac ▸ hl)).symm

/-- While the first station has its address, a second one gets another. -/
theorem lease_promise_two :
    ∃ r', (((accessPoint.udpInput (stationDiscover 1)).1.run [.coarseTmr]).udpInput
        (stationDiscover 2)).2 = some r' ∧ r'.Grants (.ofBytes 192 168 4 3) ∧
      (Ip4.ofBytes 192 168 4 3 = Ip4.ofBytes 192 168 4 2 ↔
        (stationDiscover 2).message.mac = (stationDiscover 1).message.mac) := by
  obtain ⟨r, hr, hgrants, htime⟩ := accessPoint_offers
  have hany : (((accessPoint.udpInput (stationDiscover 1)).1.run [.coarseTmr]).udpInput
      (stationDiscover 2)).2.any (fun r =>
        r.yiaddr = (Ip4.ofBytes 192 168 4 3).bytes ∧ messageType r.options = dhcpOffer) = true := by
    decide +kernel
  obtain ⟨r', hr', hoffer⟩ := (Option.any_eq_true _ _).mp hany
  obtain ⟨haddr, htype⟩ := of_decide_eq_true hoffer
  have hgrants' : r'.Grants (.ofBytes 192 168 4 3) := ⟨haddr, Or.inl htype⟩
  exact ⟨r', hr', hgrants', lease_promise accessPoint_ok hr hgrants accessPoint_spared
    (by rw [htime]; decide) hr' hgrants'⟩

/-! ## Requests -/

/-- A station that has a lease is answered according to its options. -/
lemma Ok.answer_of_lease (hs : s.Ok) (h : s.dhcpsStatus = .started) (hp : p.Reaches)
    {l : Lease Ip4} (hl : s.table p.message.mac = some l) (hne : l.item ≠ 0)
    (hkept : p.msgType ≠ dhcpRelease) :
    ∃ (d : Dhcps) (renew : Bool), (renew = true ↔ l.item.bytes = p.message.ciaddr) ∧
      d.clientAddress = l.item ∧
      (s.udpInput p).2 = d.answer s.getIpInfo.gw p (p.wish l.item renew) := by
  obtain ⟨_, hserved⟩ := Dhcps.parseMsg_spec (hs.leases h) p.behind (p.totLen - 240) hp.2.2
  rw [hs.udpInput_eq h, Dhcps.handleDhcp_of_reaches _ _ hp]
  generalize s.dhcps.parseMsg p.message p.behind (p.totLen - 240) = o at hserved
  obtain ⟨d, ret⟩ := o
  dsimp only at hserved ⊢
  cases hserved with
  | leased b renew contains ne allows renew_iff wish kept client table =>
      obtain rfl : l.item = b := allows.1 l hl
      refine ⟨d, renew, renew_iff.trans ⟨?_, fun hbytes => ⟨l, hl, hbytes⟩⟩, client, ?_⟩
      · rintro ⟨l', hl', hbytes⟩
        obtain rfl : l = l' := Option.some.inj (hl.symm.trans hl')
        exact hbytes
      · rw [wish]
        rfl
  | dropped b contains allows table answer =>
      rcases answer with ⟨renew, _, hrelease⟩ | ⟨_, hzero⟩
      · exact absurd (Datagram.wish_eq_release_iff.mp hrelease) hkept
      · exact absurd ((allows.1 l hl).trans hzero) hne
  | full unknown all refused table =>
      have hnone : s.table p.message.mac = none := unknown
      rw [hl] at hnone
      cases hnone

/-- **What was offered is acknowledged.** A station was granted an address; while its lease lasts,
and whatever happens meanwhile except what ends leases, its request for this address is
acknowledged, and a request for any other is refused. -/
theorem request_answered (hs : s.Ok) (hreply : (s.udpInput p).2 = some r) (hr : r.Grants a)
    {es : List ApEvent} (hspared : Spared p.message.mac (s.udpInput p).1 es)
    (htime : seconds es < r.leaseSeconds)
    {opts : List Item} (hq : q.Reaches) (hmac : q.message.mac = p.message.mac)
    (hopts : q.Carries opts) (htype : messageType opts = dhcpRequest)
    (hmem : q.pbufAlloc = true) :
    ∃ r', (((s.udpInput p).1.run es).udpInput q).2 = some r' ∧ r'.xid = q.message.xid ∧
      (q.Asks opts a → r'.yiaddr = a.bytes ∧ messageType r'.options = dhcpAck) ∧
      (¬ q.Asks opts a → messageType r'.options = dhcpNak) := by
  have hgranted := hs.granted hreply hr
  obtain ⟨hok, hrunning, l, hl, rfl⟩ := hs.kept_from_grant hgranted hspared htime
  have hkept : q.msgType ≠ dhcpRelease := by
    rw [hopts.msgType_eq, htype]
    decide
  obtain ⟨d, renew, hrenew, hclient, hanswer⟩ :=
    hok.answer_of_lease hrunning hq (hmac ▸ hl) hgranted.ne hkept
  obtain ⟨hack, hnak⟩ := hopts.wish_request htype hrenew
  by_cases hasks : q.Asks opts l.item
  · rw [hanswer, hack hasks]
    obtain ⟨hxid, _, hyiaddr, hgrant, _⟩ :=
      grant_reads dhcpAck d ((s.udpInput p).1.run es).getIpInfo.gw q.message
    exact ⟨_, if_pos hmem, hxid, fun _ => ⟨hclient ▸ hyiaddr, hgrant⟩, fun h => absurd hasks h⟩
  · rw [hanswer, hnak hasks]
    obtain ⟨hxid, hrefused⟩ := nak_reads q.message d
    exact ⟨_, if_pos hmem, hxid, fun h => absurd h hasks, fun _ => hrefused⟩

/-- The first station asks for the address that it was offered. -/
theorem request_answered_ack :
    ∃ r', (((accessPoint.udpInput (stationDiscover 1)).1.run [.coarseTmr]).udpInput
        (stationRequest 1 (.ofBytes 192 168 4 2))).2 = some r' ∧
      r'.yiaddr = (Ip4.ofBytes 192 168 4 2).bytes ∧ messageType r'.options = dhcpAck := by
  obtain ⟨r, hr, hgrants, htime⟩ := accessPoint_offers
  obtain ⟨r', hr', _, hack, _⟩ := request_answered accessPoint_ok hr hgrants
    accessPoint_spared (by rw [htime]; decide) (q := stationRequest 1 (.ofBytes 192 168 4 2))
    ⟨List.cons_ne_nil _ _, by decide +kernel, by decide +kernel⟩ (by decide +kernel)
    stationRequest_carries rfl rfl
  exact ⟨r', hr', hack rfl⟩

/-! ## Discovery -/

/-- A server that runs answers a station that looks for an address. -/
lemma Ok.answer_of_discover (hs : s.Ok) (h : s.dhcpsStatus = .started) (hp : p.Reaches)
    (htype : p.msgType = dhcpDiscover) (hmem : p.pbufAlloc = true)
    (hstart : s.dhcps.dhcpsPoll.startIp ≠ 0) :
    ∃ r, (s.udpInput p).2 = some r ∧ r.xid = p.message.xid ∧
      ((messageType r.options = dhcpOffer ∧ ∃ a, r.yiaddr = a.bytes ∧
          s.dhcps.dhcpsPoll.Contains a ∧ (∀ l, s.table p.message.mac = some l → l.item = a) ∧
          ∀ k l, s.table k = some l → l.item = a → k = p.message.mac) ∨
        (messageType r.options = dhcpNak ∧ s.table p.message.mac = none ∧
          ∀ a, s.dhcps.dhcpsPoll.Contains a → ∃ k l, s.table k = some l ∧ l.item = a)) := by
  obtain ⟨_, hserved⟩ := Dhcps.parseMsg_spec (hs.leases h) p.behind (p.totLen - 240) hp.2.2
  rw [hs.udpInput_eq h, Dhcps.handleDhcp_of_reaches _ _ hp]
  generalize s.dhcps.parseMsg p.message p.behind (p.totLen - 240) = o at hserved
  obtain ⟨d, ret⟩ := o
  dsimp only at hserved ⊢
  cases hserved with
  | leased a renew contains ne allows renew_iff wish kept client table =>
      have hoffer : ret = .offer := wish.trans (Datagram.wish_of_discover htype)
      obtain ⟨hxid, _, hyiaddr, hgrant, _⟩ := grant_reads dhcpOffer d s.getIpInfo.gw p.message
      rw [hoffer]
      exact ⟨_, if_pos hmem, hxid, Or.inl ⟨hgrant, a, client ▸ hyiaddr, contains, allows.1,
        allows.2⟩⟩
  | dropped a contains allows table answer =>
      rcases answer with ⟨renew, _, hrelease⟩ | ⟨_, hzero⟩
      · have hoffer : p.wish a renew = .offer := Datagram.wish_of_discover htype
        rw [Datagram.wish, hrelease] at hoffer
        cases hoffer
      · -- the address 0 would be the first one
        subst hzero
        have hle : s.dhcps.dhcpsPoll.startIp.octet = 0 :=
          Nat.le_zero.mp contains.start_le
        exact absurd (ext_net_octet contains.net.symm hle) hstart
  | full unknown all refused table =>
      obtain ⟨hxid, hrefused⟩ := nak_reads p.message d
      rw [refused]
      exact ⟨_, if_pos hmem, hxid, Or.inr ⟨hrefused, unknown, all⟩⟩

/-- **A station that looks for an address is offered one**, its own or one that nobody has, unless
all of them are leased to others.  The addresses that were configured before must leave out the last
one of the network. -/
theorem discover_answered {before : List ApEvent} (hbefore : ∀ e ∈ before, e.Proper)
    (h : (initial.run before).dhcpsStatus = .started) (hp : p.Reaches)
    (htype : p.msgType = dhcpDiscover) (hmem : p.pbufAlloc = true)
    (hstart : (initial.run before).dhcps.dhcpsPoll.startIp ≠ 0) :
    ∃ r, ((initial.run before).udpInput p).2 = some r ∧ r.xid = p.message.xid ∧
      ((messageType r.options = dhcpOffer ∧ ∃ a, r.yiaddr = a.bytes ∧
          (initial.run before).dhcps.dhcpsPoll.Contains a ∧
          (∀ l, (initial.run before).table p.message.mac = some l → l.item = a) ∧
          ∀ k l, (initial.run before).table k = some l → l.item = a → k = p.message.mac) ∨
        (messageType r.options = dhcpNak ∧ (initial.run before).table p.message.mac = none ∧
          ∀ a, (initial.run before).dhcps.dhcpsPoll.Contains a →
            ∃ k l, (initial.run before).table k = some l ∧ l.item = a)) :=
  (initial_run_ok hbefore).answer_of_discover h hp htype hmem hstart

/-- The first station looks for an address. -/
theorem discover_answered_first :
    ∃ r, (accessPoint.udpInput (stationDiscover 1)).2 = some r ∧
      r.xid = (stationDiscover 1).message.xid ∧
      ((messageType r.options = dhcpOffer ∧ ∃ a, r.yiaddr = a.bytes ∧
          accessPoint.dhcps.dhcpsPoll.Contains a ∧
          (∀ l, accessPoint.table (stationDiscover 1).message.mac = some l → l.item = a) ∧
          ∀ k l, accessPoint.table k = some l → l.item = a →
            k = (stationDiscover 1).message.mac) ∨
        (messageType r.options = dhcpNak ∧
          accessPoint.table (stationDiscover 1).message.mac = none ∧
          ∀ a, accessPoint.dhcps.dhcpsPoll.Contains a →
            ∃ k l, accessPoint.table k = some l ∧ l.item = a)) :=
  discover_answered accessPoint_proper (by decide)
    ⟨List.cons_ne_nil _ _, by decide +kernel, by decide +kernel⟩ (by decide +kernel) rfl
    (by decide)

/-! ## Stations that are silent -/

lemma dhcpSearchIpOnMac_eq (d : Dhcps) (mac : Mac) :
    dhcpSearchIpOnMac d mac = (d.table mac).map Lease.item := by
  rw [dhcpSearchIpOnMac, Dhcps.table, tableOf, Option.map_map]
  rfl

/-- **A lease is gone** when its time is over and the station has been silent. -/
lemma Ok.expired_from_grant (hs : s.Ok) (hbelow : s.dhcps.dhcpsPoll.Below) (h : s.Granted p r a)
    {es : List ApEvent} (hproper : ∀ e ∈ es, e.Proper)
    (hsilent : ∀ e ∈ es, ¬ e.IsFrom p.message.mac) (htime : s.dhcps.duration ≤ seconds es) :
    ((s.udpInput p).1.run es).table p.message.mac = none := by
  obtain ⟨acts, _, htable, hticks, hcaused⟩ :=
    (hs.udpInput p).run_refines (below_step (e := .udpInput p) hbelow trivial) hproper
  have hforgets : ∀ x ∈ acts, Forgets p.message.mac x := by
    intro x hx
    obtain ⟨e, he, hcause⟩ := hcaused x hx
    cases x with
    | hold k b n =>
        rintro rfl
        exact hsilent e he hcause
    | drop k => trivial
    | tick => trivial
  have hpos : 0 < s.dhcps.duration := by
    rw [Dhcps.duration, secondsLeft]
    split_ifs with hzero
    · decide
    · exact Nat.pos_of_ne_zero fun h => hzero (UInt32.toNat_inj.mp h)
  rw [htable]
  exact expired_run h.entry hforgets (by rw [hticks]; exact htime) (by rw [hticks]; omega)

/-- **The address of a silent station becomes free**: when the time of its lease is over and it has
sent nothing since, it has no address any more.  The addresses that are configured, before or after,
must leave out the last one of the network. -/
theorem silent_station_expires {before es : List ApEvent}
    (hbefore : ∀ e ∈ before, e.Proper) (hproper : ∀ e ∈ es, e.Proper)
    (hreply : ((initial.run before).udpInput p).2 = some r) (hr : r.Grants a)
    (hsilent : ∀ e ∈ es, ¬ e.IsFrom p.message.mac)
    (htime : (initial.run before).dhcps.duration ≤ seconds es) :
    dhcpSearchIpOnMac (((initial.run before).udpInput p).1.run es).dhcps p.message.mac = none := by
  have hs := initial_run_ok hbefore
  have hnone : (((initial.run before).udpInput p).1.run es).dhcps.table p.message.mac = none :=
    hs.expired_from_grant (below_run initial_below hbefore) (hs.granted hreply hr) hproper hsilent
      htime
  rw [dhcpSearchIpOnMac_eq, hnone]
  rfl

/-- Two hours after its discovery the first station has no address. -/
theorem silent_station_expires_two_hours :
    dhcpSearchIpOnMac ((accessPoint.udpInput (stationDiscover 1)).1.run
      (List.replicate 7200 .coarseTmr)).dhcps (stationDiscover 1).message.mac = none := by
  obtain ⟨r, hr, hgrants, _⟩ := accessPoint_offers
  refine silent_station_expires accessPoint_proper (fun e he => ?_) hr hgrants (fun e he => ?_) ?_
  · rw [List.eq_of_mem_replicate he]
    trivial
  · rw [List.eq_of_mem_replicate he]
    rintro ⟨p, hp, _⟩
    cases hp
  · have hseconds : seconds (List.replicate 7200 .coarseTmr) = 7200 := by
      rw [seconds, List.map_replicate, List.sum_replicate]
      rfl
    rw [hseconds]
    decide

/-! ## Few stations -/

/-- The stations that may have leases. -/
def Within (K : Finset Mac) (s : TcpipAdapter) : Prop := ∀ mac, mac ∉ K → s.table mac = none

lemma Ok.within_step (hs : s.Ok) {K : Finset Mac} (hK : s.Within K) {e : ApEvent}
    (he : ∀ p, e = .udpInput p → p.message.mac ∈ K) : (s.step e).Within K := by
  intro mac hmac
  obtain ⟨acts, _, htable, _, hcaused⟩ := hs.step_refines e
  rw [htable]
  refine none_run (hK mac hmac) fun x hx => ?_
  have hcause := hcaused x hx
  cases x with
  | hold k b n =>
      obtain ⟨p, hp, hpmac⟩ := hcause
      rintro rfl
      exact hmac (hpmac ▸ he p hp)
  | drop k => trivial
  | tick => trivial

/-- With few stations there are few leases. -/
lemma Ok.length_le_of_within (hs : s.Ok) {K : Finset Mac} (hK : s.Within K) :
    (decrementTimers s.dhcps.plist).length ≤ K.card := by
  have hkeys := (decrementTimers_keys s.dhcps.plist).length_le
  rw [List.length_map, List.length_map] at hkeys
  refine hkeys.trans ?_
  by_cases hstarted : s.dhcpsStatus = .started
  · have hok := hs.leases hstarted
    have hsub : (s.dhcps.plist.map DhcpsPool.mac).toFinset ⊆ K := by
      intro mac hmac
      obtain ⟨q, hq, rfl⟩ := List.mem_map.mp (List.mem_toFinset.mp hmac)
      by_contra hout
      exact tableOf_eq_none_iff.mp (hK q.mac hout) q hq rfl
    have hcard := Finset.card_le_card hsub
    rwa [List.toFinset_card_of_nodup hok.macs, List.length_map] at hcard
  · rw [(hs.idle hstarted).1]
    exact Nat.zero_le _

/-- **With fewer than eight stations no lease is given up.** -/
lemma Ok.spared_of_within (hs : s.Ok) (h : s.dhcpsStatus = .started) {K : Finset Mac}
    (hcard : K.card < maxStationNum) (hK : s.Within K) {mac : Mac} {es : List ApEvent}
    (hfrom : ∀ q, .udpInput q ∈ es → q.message.mac ∈ K)
    (hgoes : .stop ∉ es ∧ .dhcpsStop ∉ es)
    (hrelease : ∀ q, .udpInput q ∈ es → q.message.mac = mac → q.msgType ≠ dhcpRelease) :
    Spared mac s es := by
  induction es generalizing s with
  | nil => trivial
  | cons e es ih =>
      have hspares : s.Spares mac e := by
        cases e with
        | stop => exact hgoes.1 List.mem_cons_self
        | dhcpsStop => exact hgoes.2 List.mem_cons_self
        | udpInput q => exact hrelease q List.mem_cons_self
        | coarseTmr => exact (hs.length_le_of_within hK).trans_lt hcard
        | _ => trivial
      obtain ⟨hs', h', _⟩ := hs.step_running h hspares
      exact ⟨hspares, ih hs' h'
        (hs.within_step hK fun p hp => hfrom p (hp ▸ List.mem_cons_self))
        (fun q hq => hfrom q (List.mem_cons_of_mem e hq))
        ⟨fun h => hgoes.1 (List.mem_cons_of_mem e h), fun h => hgoes.2 (List.mem_cons_of_mem e h)⟩
        fun q hq => hrelease q (List.mem_cons_of_mem e hq)⟩

lemma Ok.within_run (hs : s.Ok) (hbelow : s.dhcps.dhcpsPoll.Below) {K : Finset Mac}
    (hK : s.Within K) {es : List ApEvent}
    (hproper : ∀ e ∈ es, e.Proper) (hfrom : ∀ q, .udpInput q ∈ es → q.message.mac ∈ K) :
    (s.run es).Within K := by
  induction es generalizing s with
  | nil => exact hK
  | cons e es ih =>
      exact ih (hs.step hbelow e) (below_step hbelow (hproper e List.mem_cons_self))
        (hs.within_step hK fun p hp => hfrom p (hp ▸ List.mem_cons_self))
        (fun x hx => hproper x (List.mem_cons_of_mem e hx))
        fun q hq => hfrom q (List.mem_cons_of_mem e hq)

/-- **With fewer than eight stations every station keeps its address** for the time that was
announced, from the first start of the access point on and whatever else happens, until it releases
it or the server is stopped.  The addresses that were configured before it got its own must leave
out the last one of the network. -/
theorem few_stations_keep {before es : List ApEvent} {K : Finset Mac}
    (hcard : K.card < maxStationNum) (hbefore : ∀ e ∈ before, e.Proper)
    (hfrom : ∀ q, .udpInput q ∈ before ++ .udpInput p :: es → q.message.mac ∈ K)
    (hgoes : .stop ∉ es ∧ .dhcpsStop ∉ es)
    (hrelease : ∀ q, .udpInput q ∈ es → q.message.mac = p.message.mac → q.msgType ≠ dhcpRelease)
    (hreply : ((initial.run before).udpInput p).2 = some r) (hr : r.Grants a)
    (htime : seconds es < r.leaseSeconds) :
    dhcpSearchIpOnMac (initial.run (before ++ .udpInput p :: es)).dhcps p.message.mac
      = some a := by
  have hok := initial_run_ok hbefore
  have hgranted := hok.granted hreply hr
  have hwithin : (initial.run before).Within K :=
    initial_ok.within_run initial_below (fun mac _ => rfl) hbefore
      fun q hq => hfrom q (List.mem_append_left _ hq)
  have hrun : initial.run (before ++ .udpInput p :: es)
      = ((initial.run before).udpInput p).1.run es := by
    rw [TcpipAdapter.run, List.foldl_append]
    rfl
  have hspared : Spared p.message.mac ((initial.run before).udpInput p).1 es :=
    (hok.udpInput p).spared_of_within hgranted.running hcard
      (hok.within_step (e := .udpInput p) hwithin fun q hq => hfrom q (by
        rw [← hq]
        exact List.mem_append_right _ List.mem_cons_self))
      (fun q hq => hfrom q (List.mem_append_right _ (List.mem_cons_of_mem _ hq))) hgoes hrelease
  obtain ⟨_, _, l, hl, rfl⟩ := hok.kept_from_grant hgranted hspared htime
  have hentry : (((initial.run before).udpInput p).1.run es).dhcps.table p.message.mac = some l :=
    hl
  rw [hrun, dhcpSearchIpOnMac_eq, hentry]
  rfl

/-- The first station keeps its address when a second one comes. -/
theorem few_stations_keep_two :
    dhcpSearchIpOnMac (initial.run ([.start true (some initial.espIp) true] ++
      .udpInput (stationDiscover 1) :: [.coarseTmr, .udpInput (stationDiscover 2)])).dhcps
      (stationDiscover 1).message.mac = some (.ofBytes 192 168 4 2) := by
  obtain ⟨r, hr, hgrants, htime⟩ := accessPoint_offers
  refine few_stations_keep (K := {stationMac 1, stationMac 2}) (by decide) accessPoint_proper
    (fun q hq => ?_) (by simp) (fun q hq => ?_) hr hgrants (by rw [htime]; decide)
  · simp only [List.cons_append, List.nil_append, List.mem_cons, List.not_mem_nil, or_false,
      reduceCtorEq, false_or, ApEvent.udpInput.injEq] at hq
    rcases hq with rfl | rfl
    · decide +kernel
    · decide +kernel
  · simp only [List.mem_cons, List.not_mem_nil, or_false, reduceCtorEq, false_or,
      ApEvent.udpInput.injEq] at hq
    rw [hq]
    intro _
    decide +kernel

end TcpipAdapter

end Chooser
