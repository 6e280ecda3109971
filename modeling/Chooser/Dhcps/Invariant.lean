import Chooser.Dhcps.Adapter

/-!
# What is true of the access point

Two things are kept apart.  Whatever is configured, the server runs on an interface that is up
(`Stands`), and what it does while it runs is to go on (`Turn`).  That its leases are in order
besides (`Ok`) holds as long as no addresses are configured that end with the last one of the
network (`Below`).
-/

namespace Chooser

open CStr Ip4 LeaseTable

/-! ## What is always true -/

/-- **What is true of the access point in every run**: the server runs on an interface that is up,
with the address of this interface, and where it does not run there are no leases. -/
structure TcpipAdapter.Stands (s : TcpipAdapter) : Prop where
  running : s.dhcpsStatus = .started → ∃ n, s.espNetif = some n ∧ n.up = true ∧
    n.dhcpsPcb = true ∧ s.dhcps.serverAddress = n.info.ip
  idle : s.dhcpsStatus ≠ .started → s.dhcps.plist = [] ∧
    ∀ n, s.espNetif = some n → n.dhcpsPcb = false
  down : s.dhcpsStatus = .init → ∀ n, s.espNetif = some n → n.up = false

namespace TcpipAdapter

variable {s : TcpipAdapter}

lemma initial_stands : initial.Stands where
  running h := by cases h
  idle _ := ⟨rfl, fun n h => by cases h⟩
  down _ n h := by cases h

/-- The server is started on an interface that is up. -/
lemma stands_startServer {n : Netif} (hup : n.up = true) (e : Option Netif) :
    { ({ s with espNetif := e } : TcpipAdapter).startServer n n.info.ip with
      dhcpsStatus := .started }.Stands where
  running _ := ⟨_, rfl, hup, rfl, rfl⟩
  idle h := absurd rfl h
  down h := by cases h

/-- An interface that is up stays as it is, if the server is not to be started. -/
lemma start_of_up {n : Netif} (hn : s.espNetif = some n) (hup : n.up = true)
    (hinit : s.dhcpsStatus ≠ .init) (mac : Bool) (ipInfo : Option IpInfo) (calloc : Bool) :
    (s.start mac ipInfo calloc).1 = s := by
  have hfilter : s.espNetif.filter Netif.up = some n := by simp [hn, hup]
  have hsame : ({ n with up := true } : Netif) = n := by rw [← hup]
  unfold TcpipAdapter.start
  cases ipInfo with
  | none => rfl
  | some info =>
      dsimp only
      rw [hfilter, Option.getD_some, hsame, ← hn]
      split_ifs with hmac hmem
      · rfl
      · rfl
      · rfl

lemma Stands.start (hs : s.Stands) (mac : Bool) (ipInfo : Option IpInfo) (calloc : Bool) :
    (s.start mac ipInfo calloc).1.Stands := by
  by_cases hany : ∃ n, s.espNetif = some n ∧ n.up = true
  · obtain ⟨n, hn, hup⟩ := hany
    have hinit : s.dhcpsStatus ≠ .init := fun h => by
      rw [hs.down h n hn] at hup
      cases hup
    rw [start_of_up hn hup hinit]
    exact hs
  · have hidle : s.dhcpsStatus ≠ .started := fun h =>
      let ⟨n, hn, hup, _⟩ := hs.running h
      hany ⟨n, hn, hup⟩
    have hfilter : s.espNetif.filter Netif.up = none :=
      Option.filter_eq_none_iff.mpr fun n hn hup => hany ⟨n, hn, hup⟩
    unfold TcpipAdapter.start
    cases ipInfo with
    | none => exact hs
    | some info =>
        dsimp only
        rw [hfilter]
        split_ifs with hmac hmem hinit
        · exact hs
        · exact hs
        · exact stands_startServer (n := ⟨info, true, false⟩) rfl _
        · refine ⟨fun h => absurd h hidle, fun _ => ⟨(hs.idle hidle).1, ?_⟩,
            fun h => absurd h hinit⟩
          intro m hm
          obtain rfl := Option.some.inj hm
          rfl

lemma Stands.stop (hs : s.Stands) : s.stop.1.Stands := by
  unfold TcpipAdapter.stop
  cases hn : s.espNetif with
  | none => exact hs
  | some n =>
      dsimp only
      have hpcb : ∀ m, some { { n with up := false } with dhcpsPcb := false } = some m →
          m.dhcpsPcb = false ∧ m.up = false := by
        intro m hm
        obtain rfl := Option.some.inj hm
        exact ⟨rfl, rfl⟩
      split_ifs with hup hstopped
      · refine ⟨fun h => ?_, fun _ => ⟨rfl, fun m hm => (hpcb m hm).1⟩,
          fun _ m hm => (hpcb m hm).2⟩
        rw [hstopped] at h
        cases h
      · exact ⟨nofun, fun _ => ⟨rfl, fun m hm => (hpcb m hm).1⟩, fun _ m hm => (hpcb m hm).2⟩
      · exact hs

lemma Stands.setIpInfo (hs : s.Stands) (ipInfo : Option IpInfo) :
    (s.setIpInfo ipInfo).1.Stands := by
  unfold TcpipAdapter.setIpInfo
  cases ipInfo with
  | none => exact hs
  | some info =>
      dsimp only
      split_ifs with hstatus
      · exact hs
      · have hstopped : s.dhcpsStatus = .stopped := by simpa using hstatus
        have hidle : s.dhcpsStatus ≠ .started := by rw [hstopped]; decide
        have hinit : s.dhcpsStatus ≠ .init := by rw [hstopped]; decide
        refine ⟨fun h => absurd h hidle, fun _ => ⟨(hs.idle hidle).1, fun n hn => ?_⟩,
          fun h => absurd h hinit⟩
        obtain ⟨m, hm, rfl⟩ := Option.map_eq_some_iff.mp hn
        split_ifs
        · exact (hs.idle hidle).2 m hm
        · exact (hs.idle hidle).2 m hm

/-- A server that does not run may be changed, but has no leases. -/
lemma Stands.withDhcps (hs : s.Stands) (hidle : s.dhcpsStatus ≠ .started) {d : Dhcps}
    (hlist : d.plist = []) : { s with dhcps := d }.Stands :=
  ⟨fun h => absurd h hidle, fun _ => ⟨hlist, (hs.idle hidle).2⟩, hs.down⟩

/-- One that runs keeps its address. -/
lemma Stands.withRunning (hs : s.Stands) (hstarted : s.dhcpsStatus = .started) {d : Dhcps}
    (hserver : d.serverAddress = s.dhcps.serverAddress) : { s with dhcps := d }.Stands := by
  obtain ⟨n, hn, hup, hpcb, hip⟩ := hs.running hstarted
  exact ⟨fun _ => ⟨n, hn, hup, hpcb, hserver.trans hip⟩, fun h => absurd hstarted h, hs.down⟩

lemma Stands.dhcpsOptionSet (hs : s.Stands) (val : DhcpsOptionVal) (optLen : ℕ) :
    (s.dhcpsOptionSet val optLen).1.Stands := by
  unfold TcpipAdapter.dhcpsOptionSet
  split_ifs with hsize hstarted
  · exact hs
  · exact hs
  · have hlist := (hs.idle hstarted).1
    cases val with
    | leaseTime v => exact hs.withDhcps hstarted hlist
    | requestedIp poll =>
        dsimp only
        split_ifs
        · exact hs
        · exact hs.withDhcps hstarted hlist
    | routerSolicitation v => exact hs.withDhcps hstarted hlist
    | domainNameServer v => exact hs.withDhcps hstarted hlist
    | other => exact hs

lemma Stands.dhcpsStart (hs : s.Stands) : s.dhcpsStart.1.Stands := by
  unfold TcpipAdapter.dhcpsStart
  split_ifs with hstarted
  · exact hs
  · have hinit : ∀ hdown : ∀ n, s.espNetif = some n → n.up = false,
        { s with dhcpsStatus := .init }.Stands :=
      fun hdown => ⟨nofun, fun _ => hs.idle hstarted, fun _ => hdown⟩
    split
    case h_1 n hn =>
      split_ifs with hup
      · have hip : s.getIpInfo.ip = n.info.ip := by simp [getIpInfo, hn, hup]
        rw [hip]
        exact stands_startServer hup s.espNetif
      · refine hinit fun m hm => ?_
        rw [hn] at hm
        obtain rfl := Option.some.inj hm
        simpa using hup
    case h_2 hn =>
      refine hinit fun n h => ?_
      rw [hn] at h
      cases h

lemma Stands.dhcpsStop (hs : s.Stands) : s.dhcpsStop.1.Stands := by
  unfold TcpipAdapter.dhcpsStop
  cases hstatus : s.dhcpsStatus with
  | init =>
      have hidle : s.dhcpsStatus ≠ .started := by rw [hstatus]; decide
      exact ⟨nofun, fun _ => hs.idle hidle, nofun⟩
  | stopped => exact hs
  | started =>
      obtain ⟨n, hn, _⟩ := hs.running hstatus
      rw [hn]
      refine ⟨nofun, fun _ => ⟨rfl, fun m hm => ?_⟩, nofun⟩
      obtain rfl := Option.some.inj hm
      rfl

lemma Stands.setDnsInfo (hs : s.Stands) (type : ℕ) (dns : Option Ip4) :
    (s.setDnsInfo type dns).1.Stands := by
  unfold TcpipAdapter.setDnsInfo
  split
  case h_1 => exact hs
  case h_2 ip =>
    split_ifs
    · exact hs
    · exact ⟨hs.running, hs.idle, hs.down⟩

/-- The server listens exactly while its status says so. -/
lemma Stands.listens_iff (hs : s.Stands) :
    s.espNetif.any Netif.dhcpsPcb = true ↔ s.dhcpsStatus = .started := by
  constructor
  · intro hany
    by_contra hidle
    obtain ⟨n, hn, hpcb⟩ := (Option.any_eq_true _ _).mp hany
    rw [(hs.idle hidle).2 n hn] at hpcb
    cases hpcb
  · intro hstarted
    obtain ⟨n, hn, _, hpcb, _⟩ := hs.running hstarted
    simp [hn, hpcb]

/-- A server that runs handles a datagram. -/
lemma Stands.udpInput_eq (hs : s.Stands) (h : s.dhcpsStatus = .started) (p : Datagram) :
    s.udpInput p = ({ s with dhcps := (s.dhcps.handleDhcp s.getIpInfo.gw p).1 },
      (s.dhcps.handleDhcp s.getIpInfo.gw p).2) := by
  rw [TcpipAdapter.udpInput, if_pos (hs.listens_iff.mpr h)]

/-- One that does not run ignores it. -/
lemma Stands.udpInput_idle (hs : s.Stands) (h : s.dhcpsStatus ≠ .started) (p : Datagram) :
    s.udpInput p = (s, none) := by
  rw [TcpipAdapter.udpInput, if_neg (mt hs.listens_iff.mp h)]

lemma Stands.udpInput (hs : s.Stands) (p : Datagram) : (s.udpInput p).1.Stands := by
  by_cases h : s.dhcpsStatus = .started
  · rw [hs.udpInput_eq h]
    exact hs.withRunning h
      (Dhcps.serverAddress_of_config (s.dhcps.handleDhcp_config s.getIpInfo.gw p))
  · rw [hs.udpInput_idle h]
    exact hs

/-- Without leases nothing changes in a second. -/
lemma Stands.coarseTmr_idle (hs : s.Stands) (h : s.dhcpsStatus ≠ .started) : s.coarseTmr = s := by
  have hlist := (hs.idle h).1
  have hnone : s.dhcps.dhcpsCoarseTmr = { s.dhcps with plist := [] } := by
    rw [Dhcps.dhcpsCoarseTmr, hlist]
    rfl
  rw [TcpipAdapter.coarseTmr, hnone, ← hlist]

lemma Stands.coarseTmr (hs : s.Stands) : s.coarseTmr.Stands := by
  by_cases h : s.dhcpsStatus = .started
  · exact hs.withRunning h (Dhcps.serverAddress_of_config s.dhcps.dhcpsCoarseTmr_config)
  · rw [hs.coarseTmr_idle h]
    exact hs

/-- **Whatever happens keeps it.** -/
theorem Stands.step (hs : s.Stands) (e : ApEvent) : (s.step e).Stands := by
  cases e with
  | start mac ipInfo calloc => exact hs.start mac ipInfo calloc
  | stop => exact hs.stop
  | setIpInfo ipInfo => exact hs.setIpInfo ipInfo
  | dhcpsOptionSet val optLen => exact hs.dhcpsOptionSet val optLen
  | dhcpsStart => exact hs.dhcpsStart
  | dhcpsStop => exact hs.dhcpsStop
  | setDnsInfo type dns => exact hs.setDnsInfo type dns
  | udpInput p => exact hs.udpInput p
  | coarseTmr => exact hs.coarseTmr

theorem Stands.run (hs : s.Stands) (es : List ApEvent) : (s.run es).Stands := by
  induction es generalizing s with
  | nil => exact hs
  | cons e es ih => exact ih (hs.step e)

end TcpipAdapter

/-! ## A server that runs -/

/-- What becomes of a server that goes on. -/
inductive Dhcps.GoesOn (d : Dhcps) : ApEvent → Dhcps → Prop where
  | same (e : ApEvent) : GoesOn d e d
  | setDns (e : ApEvent) (ip : Ip4) : GoesOn d e { d with dnsServer := ip }
  | served (p : Datagram) (gw : Ip4) : GoesOn d (.udpInput p) (d.handleDhcp gw p).1
  | second : GoesOn d .coarseTmr d.dhcpsCoarseTmr

/-- **It keeps its configuration**, apart from the name server. -/
lemma Dhcps.GoesOn.config {d d' : Dhcps} {e : ApEvent} (h : d.GoesOn e d') :
    d'.config = { d.config with dnsServer := d'.dnsServer } := by
  have hserve : ∀ d' : Dhcps, d'.config = d.config →
      d'.config = { d.config with dnsServer := d'.dnsServer } := by
    intro d' hconfig
    have hdns : d'.dnsServer = d.dnsServer :=
      show d'.config.dnsServer = d.config.dnsServer from congrArg _ hconfig
    rw [hconfig, hdns]
    rfl
  cases h with
  | same => rfl
  | setDns ip => rfl
  | served p gw => exact hserve _ (d.handleDhcp_config gw p)
  | second => exact hserve _ d.dhcpsCoarseTmr_config

lemma Dhcps.GoesOn.poll {d d' : Dhcps} {e : ApEvent} (h : d.GoesOn e d') :
    d'.dhcpsPoll = d.dhcpsPoll :=
  show d'.config.dhcpsPoll = d.config.dhcpsPoll by rw [h.config]

lemma Dhcps.GoesOn.duration {d d' : Dhcps} {e : ApEvent} (h : d.GoesOn e d') :
    d'.duration = d.duration :=
  show d'.config.duration = d.config.duration by
    rw [h.config]
    rfl

namespace TcpipAdapter

variable {s : TcpipAdapter}

lemma Stands.start_of_started (hs : s.Stands) (h : s.dhcpsStatus = .started) (mac : Bool)
    (ipInfo : Option IpInfo) (calloc : Bool) : (s.start mac ipInfo calloc).1 = s := by
  obtain ⟨n, hn, hup, _⟩ := hs.running h
  exact start_of_up hn hup (by rw [h]; decide) mac ipInfo calloc

lemma setIpInfo_of_started (h : s.dhcpsStatus = .started) (ipInfo : Option IpInfo) :
    (s.setIpInfo ipInfo).1 = s := by
  unfold TcpipAdapter.setIpInfo
  cases ipInfo with
  | none => rfl
  | some info =>
      dsimp only
      rw [if_pos (by rw [h]; decide)]

lemma dhcpsOptionSet_of_started (h : s.dhcpsStatus = .started) (val : DhcpsOptionVal)
    (optLen : ℕ) : (s.dhcpsOptionSet val optLen).1 = s := by
  unfold TcpipAdapter.dhcpsOptionSet
  split_ifs
  · rfl
  · rfl

lemma dhcpsStart_of_started (h : s.dhcpsStatus = .started) : s.dhcpsStart.1 = s := by
  rw [TcpipAdapter.dhcpsStart, if_pos h]

/-- **A server that runs goes on**, unless it is stopped, and nothing else changes. -/
theorem Stands.step_of_started (hs : s.Stands) (h : s.dhcpsStatus = .started) {e : ApEvent}
    (hstop : e ≠ .stop) (hdhcpsStop : e ≠ .dhcpsStop) :
    ∃ d, s.step e = { s with dhcps := d } ∧ s.dhcps.GoesOn e d := by
  have hsame : ∀ s', s' = s → ∃ d, s' = { s with dhcps := d } ∧ s.dhcps.GoesOn e d := by
    rintro s' rfl
    exact ⟨_, rfl, .same e⟩
  cases e with
  | start mac ipInfo calloc => exact hsame _ (hs.start_of_started h mac ipInfo calloc)
  | stop => exact absurd rfl hstop
  | setIpInfo ipInfo => exact hsame _ (setIpInfo_of_started h ipInfo)
  | dhcpsOptionSet val optLen => exact hsame _ (dhcpsOptionSet_of_started h val optLen)
  | dhcpsStart => exact hsame _ (dhcpsStart_of_started h)
  | dhcpsStop => exact absurd rfl hdhcpsStop
  | setDnsInfo type dns =>
      simp only [TcpipAdapter.step, TcpipAdapter.setDnsInfo]
      split
      · exact hsame _ rfl
      · split_ifs
        · exact hsame _ rfl
        · exact ⟨_, rfl, .setDns _ _⟩
  | udpInput p =>
      rw [TcpipAdapter.step, hs.udpInput_eq h]
      exact ⟨_, rfl, .served p _⟩
  | coarseTmr => exact ⟨_, rfl, .second⟩

/-- What a step does to the server: it goes on, is configured, is started or is stopped. -/
inductive Turn (s : TcpipAdapter) (e : ApEvent) (s' : TcpipAdapter) : Prop where
  | goesOn (server : s.dhcps.GoesOn e s'.dhcps)
      (status : s'.dhcpsStatus = .started → s.dhcpsStatus = .started) : Turn s e s'
  | configured (idle : s.dhcpsStatus ≠ .started) (status : s'.dhcpsStatus = s.dhcpsStatus)
      (plist : s'.dhcps.plist = s.dhcps.plist)
      (poll : s'.dhcps.dhcpsPoll = s.dhcps.dhcpsPoll ∨
        ∃ optLen, e = .dhcpsOptionSet (.requestedIp s'.dhcps.dhcpsPoll) optLen) : Turn s e s'
  | starts (ip : Ip4) (idle : s.dhcpsStatus ≠ .started)
      (server : s'.dhcps = s.dhcps.dhcpsStart ip) : Turn s e s'
  | stops (call : e = .stop ∨ e = .dhcpsStop) (status : s'.dhcpsStatus ≠ .started)
      (server : s'.dhcps = s.dhcps.dhcpsStop) : Turn s e s'

/-- **Every step is one of these.** -/
theorem turn_step (s : TcpipAdapter) (e : ApEvent) : s.Turn e (s.step e) := by
  have hsame : s.Turn e s := .goesOn (.same e) id
  cases e with
  | start mac ipInfo calloc =>
      simp only [TcpipAdapter.step, TcpipAdapter.start]
      split
      · exact hsame
      · split_ifs with hmac hmem hinit
        · exact hsame
        · exact hsame
        · have hidle : s.dhcpsStatus ≠ .started := by
            rw [show s.dhcpsStatus = .init from hinit]
            decide
          exact .starts _ hidle rfl
        · exact .goesOn (.same _) id
  | stop =>
      simp only [TcpipAdapter.step, TcpipAdapter.stop]
      split
      · exact hsame
      · split_ifs with hup hstopped
        · have hidle : s.dhcpsStatus ≠ .started := by
            rw [show s.dhcpsStatus = .stopped from hstopped]
            decide
          exact .stops (Or.inl rfl) hidle rfl
        · exact .stops (Or.inl rfl) nofun rfl
        · exact hsame
  | setIpInfo ipInfo =>
      simp only [TcpipAdapter.step, TcpipAdapter.setIpInfo]
      split
      · exact hsame
      · split_ifs
        · exact hsame
        · exact .goesOn (.same _) id
  | dhcpsOptionSet val optLen =>
      simp only [TcpipAdapter.step, TcpipAdapter.dhcpsOptionSet]
      split_ifs with hsize hstarted
      · exact hsame
      · exact hsame
      · cases val with
        | requestedIp poll =>
            dsimp only
            split_ifs
            · exact hsame
            · exact .configured hstarted rfl rfl (Or.inr ⟨optLen, rfl⟩)
        | other => exact hsame
        | _ => exact .configured hstarted rfl rfl (Or.inl rfl)
  | dhcpsStart =>
      simp only [TcpipAdapter.step, TcpipAdapter.dhcpsStart]
      split_ifs with hstarted
      · exact hsame
      · split
        · split_ifs
          · exact .starts _ hstarted rfl
          · exact .goesOn (.same _) nofun
        · exact .goesOn (.same _) nofun
  | dhcpsStop =>
      simp only [TcpipAdapter.step, TcpipAdapter.dhcpsStop]
      split
      · split
        · exact .stops (Or.inr rfl) nofun rfl
        · exact hsame
      · exact hsame
      · exact .goesOn (.same _) nofun
  | setDnsInfo type dns =>
      simp only [TcpipAdapter.step, TcpipAdapter.setDnsInfo]
      split
      · exact hsame
      · split_ifs
        · exact hsame
        · exact .goesOn (.setDns _ _) id
  | udpInput p =>
      simp only [TcpipAdapter.step, TcpipAdapter.udpInput]
      split_ifs
      · exact .goesOn (.served p _) id
      · exact hsame
  | coarseTmr => exact .goesOn .second id

end TcpipAdapter

/-! ## The leases -/

/-- The configured addresses do not end with the last address of the network. -/
def DhcpsLease.Below (poll : DhcpsLease) : Prop := poll.enable = true → poll.endIp.octet ≠ 255

/-- A configuration of the addresses leaves out the last address of the network. -/
def ApEvent.Proper : ApEvent → Prop
  | .dhcpsOptionSet (.requestedIp poll) _ => poll.Below
  | _ => True

lemma below_dhcpsPollSet {poll : DhcpsLease} (h : poll.Below) (ip : Ip4) :
    (dhcpsPollSet poll ip).Below := by
  unfold dhcpsPollSet
  split_ifs
  · exact h
  · exact fun henable => by cases henable

/-- A server that is started anew. -/
lemma Dhcps.dhcpsStart_ok {d : Dhcps} (hlist : d.plist = []) (hbelow : d.dhcpsPoll.Below)
    (ip : Ip4) : (d.dhcpsStart ip).Ok := by
  have hserves : (dhcpsPollSet d.dhcpsPoll ip).Serves ip := serves_dhcpsPollSet ip hbelow
  have hempty : (d.dhcpsStart ip).plist = [] := hlist
  refine ⟨⟨?_, ?_, ?_⟩, hserves, hserves.contains_startIp⟩ <;> rw [hempty]
  · exact fun p hp => absurd hp List.not_mem_nil
  · exact List.Pairwise.nil
  · exact List.nodup_nil

lemma Dhcps.Ok.goesOn {d d' : Dhcps} {e : ApEvent} (hd : d.Ok) (h : d.GoesOn e d') : d'.Ok := by
  cases h with
  | same => exact hd
  | setDns ip => exact ⟨hd.toLeasesOk, hd.serves, hd.plus⟩
  | served p gw => exact hd.handleDhcp gw p
  | second => exact (Dhcps.dhcpsCoarseTmr_spec hd).1

/-- **The invariant**: the leases of a server that runs are in order.  It is kept unless the server
is started with addresses that end with the last address of the network. -/
structure TcpipAdapter.Ok (s : TcpipAdapter) : Prop extends TcpipAdapter.Stands s where
  leases : s.dhcpsStatus = .started → s.dhcps.Ok

namespace TcpipAdapter

variable {s : TcpipAdapter}

lemma initial_ok : initial.Ok := ⟨initial_stands, nofun⟩

lemma initial_below : initial.dhcps.dhcpsPoll.Below := nofun

/-- Nothing but a proper configuration sets the addresses, or a start, which checks them. -/
lemma below_step (hbelow : s.dhcps.dhcpsPoll.Below) {e : ApEvent} (he : e.Proper) :
    (s.step e).dhcps.dhcpsPoll.Below := by
  have hturn := s.turn_step e
  generalize s.step e = s' at hturn
  cases hturn with
  | goesOn server status => exact server.poll ▸ hbelow
  | configured idle status plist poll =>
      rcases poll with hsame | ⟨optLen, rfl⟩
      · exact hsame ▸ hbelow
      · exact he
  | starts ip idle server =>
      rw [server]
      exact below_dhcpsPollSet hbelow ip
  | stops call status server =>
      rw [server]
      exact hbelow

lemma below_run (hbelow : s.dhcps.dhcpsPoll.Below) {es : List ApEvent} (hes : ∀ e ∈ es, e.Proper) :
    (s.run es).dhcps.dhcpsPoll.Below := by
  induction es generalizing s with
  | nil => exact hbelow
  | cons e es ih =>
      exact ih (below_step hbelow (hes e List.mem_cons_self)) fun x hx =>
        hes x (List.mem_cons_of_mem e hx)

/-- Only a start makes a server run that did not. -/
lemma step_of_idle (hidle : s.dhcpsStatus ≠ .started) {e : ApEvent}
    (h : (s.step e).dhcpsStatus = .started) : ∃ ip, (s.step e).dhcps = s.dhcps.dhcpsStart ip := by
  have hturn := s.turn_step e
  generalize s.step e = s' at hturn h
  cases hturn with
  | goesOn server status => exact absurd (status h) hidle
  | configured idle status plist poll => exact absurd (status.symm.trans h) hidle
  | starts ip idle server => exact ⟨ip, server⟩
  | stops call status server => exact absurd h status

lemma Stands.stop_idle (hs : s.Stands) : s.stop.1.dhcpsStatus ≠ .started := by
  unfold TcpipAdapter.stop
  split
  case h_1 hn =>
    intro h
    obtain ⟨n, hsome, _⟩ := hs.running h
    rw [hn] at hsome
    cases hsome
  case h_2 n hn =>
    dsimp only
    split_ifs with hup hstopped
    · intro h
      cases hstopped.symm.trans h
    · nofun
    · intro h
      obtain ⟨m, hsome, hmup, _⟩ := hs.running h
      rw [hn] at hsome
      obtain rfl := Option.some.inj hsome
      exact hup hmup

lemma Stands.dhcpsStop_idle (hs : s.Stands) : s.dhcpsStop.1.dhcpsStatus ≠ .started := by
  unfold TcpipAdapter.dhcpsStop
  split
  case h_1 hstarted =>
    obtain ⟨n, hn, _⟩ := hs.running hstarted
    rw [hn]
    nofun
  case h_2 hstopped =>
    intro h
    cases hstopped.symm.trans h
  case h_3 => nofun

/-- **A server that goes on** keeps the invariant, whatever was configured. -/
lemma Ok.step_of_started (hs : s.Ok) (h : s.dhcpsStatus = .started) {e : ApEvent}
    (hstop : e ≠ .stop) (hdhcpsStop : e ≠ .dhcpsStop) :
    (s.step e).Ok ∧ (s.step e).dhcpsStatus = .started := by
  have hstands := hs.toStands.step e
  obtain ⟨d, heq, hgoes⟩ := hs.toStands.step_of_started h hstop hdhcpsStop
  rw [heq] at hstands ⊢
  exact ⟨⟨hstands, fun _ => (hs.leases h).goesOn hgoes⟩, h⟩

/-- **Whatever happens keeps the invariant.** -/
theorem Ok.step (hs : s.Ok) (hbelow : s.dhcps.dhcpsPoll.Below) (e : ApEvent) : (s.step e).Ok := by
  by_cases hstarted : s.dhcpsStatus = .started
  · by_cases hstop : e = .stop
    · subst hstop
      exact ⟨hs.toStands.stop, fun h => absurd h hs.stop_idle⟩
    by_cases hdhcpsStop : e = .dhcpsStop
    · subst hdhcpsStop
      exact ⟨hs.toStands.dhcpsStop, fun h => absurd h hs.dhcpsStop_idle⟩
    exact (hs.step_of_started hstarted hstop hdhcpsStop).1
  · refine ⟨hs.toStands.step e, fun h => ?_⟩
    obtain ⟨ip, heq⟩ := step_of_idle hstarted h
    rw [heq]
    exact Dhcps.dhcpsStart_ok (hs.idle hstarted).1 hbelow ip

/-- A datagram starts no server. -/
lemma Ok.udpInput (hs : s.Ok) (p : Datagram) : (s.udpInput p).1.Ok := by
  by_cases h : s.dhcpsStatus = .started
  · exact (hs.step_of_started (e := .udpInput p) h nofun nofun).1
  · rw [hs.udpInput_idle h]
    exact hs

/-- **Every run keeps the invariant**, if the addresses that are configured leave out the last one
of the network. -/
theorem Ok.run (hs : s.Ok) (hbelow : s.dhcps.dhcpsPoll.Below) {es : List ApEvent}
    (hes : ∀ e ∈ es, e.Proper) : (s.run es).Ok := by
  induction es generalizing s with
  | nil => exact hs
  | cons e es ih =>
      exact ih (hs.step hbelow e) (below_step hbelow (hes e List.mem_cons_self)) fun x hx =>
        hes x (List.mem_cons_of_mem e hx)

/-- **What holds in every run from the time when the access point is switched on.** -/
lemma initial_run_ok {es : List ApEvent} (hes : ∀ e ∈ es, e.Proper) : (initial.run es).Ok :=
  initial_ok.run initial_below hes

end TcpipAdapter

end Chooser
