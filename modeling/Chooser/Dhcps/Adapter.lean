import Chooser.Dhcps.Serve
import Chooser.Dhcps.Reply

/-!
# The interface of the access point

The interface has an address, it is up or down, and the address server runs on it or not.  The calls
that change this check `dhcps_status`: what the server depends on can only be changed while it does
not run.
-/

namespace Chooser

open CStr Ip4 LeaseTable

/-- `tcpip_adapter_ip_info_t`. -/
structure IpInfo where
  ip : Ip4
  netmask : Ip4
  gw : Ip4
deriving DecidableEq

/-- The network interface.  `dhcpsPcb` says that the server listens on it. -/
structure Netif where
  info : IpInfo
  up : Bool
  dhcpsPcb : Bool

inductive DhcpStatus where
  | init
  | started
  | stopped
deriving DecidableEq

inductive AdapterErr where
  | ok
  | noMem
  | invalidParams
  | ifNotReady
  | dhcpAlreadyStarted
  | dhcpAlreadyStopped
  | dhcpNotStopped
deriving DecidableEq

/-- The variables of the adapter, for the access point, and those of the address server. -/
structure TcpipAdapter where
  espNetif : Option Netif
  espIp : IpInfo
  dhcpsStatus : DhcpStatus
  dhcps : Dhcps

/-- What a call of `tcpip_adapter_dhcps_option` points to.  The size is that of its type. -/
inductive DhcpsOptionVal where
  | leaseTime (v : UInt32)
  | requestedIp (v : DhcpsLease)
  | routerSolicitation (v : UInt8)
  | domainNameServer (v : UInt8)
  | other

def DhcpsOptionVal.size : DhcpsOptionVal → Option ℕ
  | .leaseTime _ => some 4
  | .requestedIp _ => some 12
  | .routerSolicitation _ => some 1
  | .domainNameServer _ => some 1
  | .other => none

namespace TcpipAdapter

/-- After `tcpip_adapter_init`. -/
def initial : TcpipAdapter where
  espNetif := none
  espIp := ⟨.ofBytes 192 168 4 1, .ofBytes 255 255 255 0, .ofBytes 192 168 4 1⟩
  dhcpsStatus := .init
  dhcps := .initial

def getIpInfo (s : TcpipAdapter) : IpInfo :=
  match s.espNetif with
  | some n => if n.up then n.info else s.espIp
  | none => s.espIp

/-- `dhcps_start` on an interface. -/
def startServer (s : TcpipAdapter) (n : Netif) (ip : Ip4) : TcpipAdapter :=
  { s with espNetif := some { n with dhcpsPcb := true }, dhcps := s.dhcps.dhcpsStart ip }

/-- `dhcps_stop` on an interface. -/
def stopServer (s : TcpipAdapter) (n : Netif) : TcpipAdapter :=
  { s with espNetif := some { n with dhcpsPcb := false }, dhcps := s.dhcps.dhcpsStop }

/-- `tcpip_adapter_start`.  `calloc` says whether there is memory for the interface. -/
def start (s : TcpipAdapter) (mac : Bool) (ipInfo : Option IpInfo) (calloc : Bool) :
    TcpipAdapter × AdapterErr :=
  match ipInfo with
  | none => (s, .invalidParams)
  | some ipInfo =>
      if mac = false then (s, .invalidParams)
      else if s.espNetif.isNone && !calloc then (s, .noMem)
      else
        -- `netif_add` on an interface that is not up
        let n := (s.espNetif.filter Netif.up).getD ⟨ipInfo, false, false⟩
        let n := { n with up := true }
        let s := { s with espNetif := some n }
        if s.dhcpsStatus = .init then
          ({ s.startServer n ipInfo.ip with dhcpsStatus := .started }, .ok)
        else (s, .ok)

/-- `tcpip_adapter_stop`. -/
def stop (s : TcpipAdapter) : TcpipAdapter × AdapterErr :=
  match s.espNetif with
  | none => (s, .ifNotReady)
  | some n =>
      if n.up then
        let s := s.stopServer { n with up := false }
        (if s.dhcpsStatus = .stopped then s else { s with dhcpsStatus := .init }, .ok)
      else (s, .ifNotReady)

/-- `tcpip_adapter_set_ip_info`. -/
def setIpInfo (s : TcpipAdapter) (ipInfo : Option IpInfo) : TcpipAdapter × AdapterErr :=
  match ipInfo with
  | none => (s, .invalidParams)
  | some ipInfo =>
      if s.dhcpsStatus ≠ .stopped then (s, .dhcpNotStopped)
      else
        ({ s with
          espIp := ipInfo
          espNetif := s.espNetif.map fun n => if n.up then { n with info := ipInfo } else n }, .ok)

/-- `tcpip_adapter_dhcps_option` with `TCPIP_ADAPTER_OP_SET`. -/
def dhcpsOptionSet (s : TcpipAdapter) (val : DhcpsOptionVal) (optLen : ℕ) :
    TcpipAdapter × AdapterErr :=
  if val.size ≠ some optLen then (s, .invalidParams)
  else if s.dhcpsStatus = .started then (s, .dhcpAlreadyStarted)
  else
    let d := s.dhcps
    match val with
    | .leaseTime v =>
        ({ s with dhcps := { d with
            dhcpsLeaseTime := if v ≠ 0 then v else dhcpsLeaseTimeDef } }, .ok)
    | .requestedIp poll =>
        if poll.enable && !poll.usable s.getIpInfo.ip then (s, .invalidParams)
        else ({ s with dhcps := { d with dhcpsPoll := poll } }, .ok)
    | .routerSolicitation v =>
        ({ s with dhcps := { d with
            dhcpsOffer := if v ≠ 0 then d.dhcpsOffer ||| 0x01 else d.dhcpsOffer &&& 0xFE } }, .ok)
    | .domainNameServer v =>
        ({ s with dhcps := { d with
            dhcpsDns := if v ≠ 0 then d.dhcpsDns ||| 0x02 else d.dhcpsDns &&& 0xFD } }, .ok)
    | .other => (s, .ok)

/-- `tcpip_adapter_dhcps_start`. -/
def dhcpsStart (s : TcpipAdapter) : TcpipAdapter × AdapterErr :=
  if s.dhcpsStatus = .started then (s, .dhcpAlreadyStarted)
  else
    match s.espNetif with
    | some n =>
        if n.up then
          ({ s.startServer n s.getIpInfo.ip with dhcpsStatus := .started }, .ok)
        else ({ s with dhcpsStatus := .init }, .ok)
    | none => ({ s with dhcpsStatus := .init }, .ok)

/-- `tcpip_adapter_dhcps_stop`. -/
def dhcpsStop (s : TcpipAdapter) : TcpipAdapter × AdapterErr :=
  match s.dhcpsStatus with
  | .started =>
      match s.espNetif with
      | some n => ({ s.stopServer n with dhcpsStatus := .stopped }, .ok)
      | none => (s, .ifNotReady)
  | .stopped => (s, .dhcpAlreadyStopped)
  | .init => ({ s with dhcpsStatus := .stopped }, .ok)

/-- `tcpip_adapter_set_dns_info`.  Of the three types only the first one is for the access point. -/
def setDnsInfo (s : TcpipAdapter) (type : ℕ) (dns : Option Ip4) : TcpipAdapter × AdapterErr :=
  match dns with
  | none => (s, .invalidParams)
  | some ip =>
      if type ≠ 0 ∨ ip = 0 then (s, .invalidParams)
      else ({ s with dhcps := { s.dhcps with dnsServer := ip } }, .ok)

/-- A datagram for the server.  Without a server nobody listens. -/
def udpInput (s : TcpipAdapter) (p : Datagram) : TcpipAdapter × Option Reply :=
  if s.espNetif.any Netif.dhcpsPcb then
    let (d, reply) := s.dhcps.handleDhcp s.getIpInfo.gw p
    ({ s with dhcps := d }, reply)
  else (s, none)

/-- A second. -/
def coarseTmr (s : TcpipAdapter) : TcpipAdapter := { s with dhcps := s.dhcps.dhcpsCoarseTmr }

end TcpipAdapter

/-! ## Runs -/

/-- What can happen to the access point. -/
inductive ApEvent where
  | start (mac : Bool) (ipInfo : Option IpInfo) (calloc : Bool)
  | stop
  | setIpInfo (ipInfo : Option IpInfo)
  | dhcpsOptionSet (val : DhcpsOptionVal) (optLen : ℕ)
  | dhcpsStart
  | dhcpsStop
  | setDnsInfo (type : ℕ) (dns : Option Ip4)
  | udpInput (p : Datagram)
  | coarseTmr

namespace TcpipAdapter

def step (s : TcpipAdapter) : ApEvent → TcpipAdapter
  | .start mac ipInfo calloc => (s.start mac ipInfo calloc).1
  | .stop => s.stop.1
  | .setIpInfo ipInfo => (s.setIpInfo ipInfo).1
  | .dhcpsOptionSet val optLen => (s.dhcpsOptionSet val optLen).1
  | .dhcpsStart => s.dhcpsStart.1
  | .dhcpsStop => s.dhcpsStop.1
  | .setDnsInfo type dns => (s.setDnsInfo type dns).1
  | .udpInput p => (s.udpInput p).1
  | .coarseTmr => s.coarseTmr

def run (s : TcpipAdapter) (es : List ApEvent) : TcpipAdapter := es.foldl step s

end TcpipAdapter

end Chooser
