import Chooser.Dhcps.Ip4

/-!
# The leases of the address server

The access point leases addresses to the stations that join it.  The leases are a list that is
sorted by address.  A station that has one keeps it; another one gets the first free address from
`client_address_plus` on, or the first free address at all if there is none left there.

Once a second all leases get older (`dhcpsCoarseTmr`).  When there are as many as stations may join,
one of those with the least time left is given up.
-/

namespace Chooser

open CStr Ip4

/-- The hardware address of a station. -/
abbrev Mac := { b : Bytes // b.length = 6 }

/-- A lease. -/
structure DhcpsPool where
  ip : Ip4
  mac : Mac
  leaseTimer : UInt32
deriving DecidableEq

/-- `dhcps_lease_t`: the addresses that are leased. -/
structure DhcpsLease where
  enable : Bool
  startIp : Ip4
  endIp : Ip4
deriving DecidableEq

/-- The variables of the server. -/
structure Dhcps where
  serverAddress : Ip4
  dnsServer : Ip4
  clientAddress : Ip4
  clientAddressPlus : Ip4
  plist : List DhcpsPool
  renew : Bool
  dhcpsPoll : DhcpsLease
  dhcpsLeaseTime : UInt32
  dhcpsOffer : UInt8
  dhcpsDns : UInt8

def dhcpsLeaseTimeDef : UInt32 := 120
def dhcpsLeaseUnit : UInt32 := 60
def dhcpsCoarseTimerSecs : UInt32 := 1
def dhcpsMaxLease : UInt32 := 0x64
def maxStationNum : ℕ := 8

def Dhcps.initial : Dhcps where
  serverAddress := 0
  dnsServer := 0
  clientAddress := 0
  clientAddressPlus := 0
  plist := []
  renew := false
  dhcpsPoll := ⟨false, 0, 0⟩
  dhcpsLeaseTime := dhcpsLeaseTimeDef
  dhcpsOffer := 0xFF
  dhcpsDns := 0

/-! ## The addresses to lease -/

/-- The configured addresses can be used by an access point with this address. -/
def DhcpsLease.usable (poll : DhcpsLease) (ip : Ip4) : Bool :=
  let softapIp := lwipHtonl ip
  let startIp := lwipHtonl poll.startIp
  let endIp := lwipHtonl poll.endIp
  !(startIp ≤ softapIp && softapIp ≤ endIp) &&
    !(startIp >>> 8 ≠ softapIp >>> 8 || endIp >>> 8 ≠ softapIp >>> 8 ||
      endIp - startIp > dhcpsMaxLease)

def dhcpsPollSet (poll : DhcpsLease) (ip : Ip4) : DhcpsLease :=
  if poll.enable && poll.usable ip then poll
  else
    let softapIp := lwipHtonl ip &&& 0xFFFFFF00
    let localIp := lwipHtonl ip &&& 0xFF
    let localIp := if localIp ≥ 0x80 then localIp - dhcpsMaxLease else localIp + 1
    { enable := false
      startIp := lwipHtonl (softapIp ||| localIp)
      endIp := lwipHtonl (softapIp ||| (localIp + dhcpsMaxLease - 1)) }

/-! ## The list -/

def nodeInsertToList : List DhcpsPool → DhcpsPool → List DhcpsPool
  | [], pinsert => [pinsert]
  | p :: ps, pinsert =>
      if pinsert.ip < p.ip then pinsert :: p :: ps else p :: nodeInsertToList ps pinsert

/-- The node that is removed is always the first one of its station. -/
def nodeRemoveFromList (plist : List DhcpsPool) (mac : Mac) : List DhcpsPool :=
  plist.eraseP fun p => p.mac = mac

/-- The lease of the station lasts anew. -/
def refreshTimer (mac : Mac) (leaseTimer : UInt32) : List DhcpsPool → List DhcpsPool
  | [] => []
  | p :: ps =>
      if p.mac = mac then { p with leaseTimer := leaseTimer } :: ps
      else p :: refreshTimer mac leaseTimer ps

def dhcpSearchIpOnMac (s : Dhcps) (mac : Mac) : Option Ip4 :=
  (s.plist.find? fun p => p.mac = mac).map DhcpsPool.ip

/-! ## Finding an address -/

/-- What `parse_msg` carries along the list. -/
structure PoolWalk where
  firstAddress : Ip4
  flag : Bool
  clientAddressPlus : Ip4
  clientAddress : Ip4

/-- The next address is in use. -/
def PoolWalk.skipPlus (w : PoolWalk) (p : DhcpsPool) : PoolWalk :=
  if p.ip = w.clientAddressPlus then
    { w with
      clientAddressPlus := nextAddr w.clientAddressPlus
      clientAddress := nextAddr w.clientAddressPlus }
  else w

/-- Search the first unused address. -/
def PoolWalk.searchFirst (w : PoolWalk) (p : DhcpsPool) : PoolWalk :=
  if w.flag then w
  else if w.firstAddress < p.ip then { w with flag := true }
  else { w with firstAddress := nextAddr w.firstAddress }

/-- One lease that is not the client's. -/
def PoolWalk.step (w : PoolWalk) (p : DhcpsPool) : PoolWalk := (w.skipPlus p).searchFirst p

/-- The loop over the list, which stops at the lease of the client. -/
def PoolWalk.along (mac : Mac) : List DhcpsPool → PoolWalk → PoolWalk × Option DhcpsPool
  | [], w => (w, none)
  | p :: ps, w => if p.mac = mac then (w, some p) else PoolWalk.along mac ps (w.step p)

/-- The timer of a lease that is given or renewed now. -/
def Dhcps.leaseTimer (s : Dhcps) : UInt32 :=
  s.dhcpsLeaseTime * dhcpsLeaseUnit / dhcpsCoarseTimerSecs

/-- `parse_msg` up to `POOL_CHECK`.  The second result says whether `pnode` points to a lease. -/
def Dhcps.findAddress (s : Dhcps) (mac : Mac) (ciaddr : Bytes) : Dhcps × Bool :=
  let w := PoolWalk.along mac s.plist
    ⟨s.dhcpsPoll.startIp, false, s.clientAddressPlus, s.clientAddressPlus⟩
  match w.2 with
  | some pool =>
      ({ s with
        renew := pool.ip.bytes = ciaddr
        clientAddress := pool.ip
        clientAddressPlus := w.1.clientAddressPlus
        plist := refreshTimer mac s.leaseTimer s.plist }, true)
  | none =>
      let client := if s.plist = [] then s.dhcpsPoll.startIp else w.1.clientAddress
      let client :=
        if w.1.clientAddressPlus > s.dhcpsPoll.endIp then w.1.firstAddress else client
      if client > s.dhcpsPoll.endIp then
        ({ s with
          renew := false
          clientAddress := client
          clientAddressPlus := s.dhcpsPoll.startIp }, false)
      else
        ({ s with
          renew := false
          clientAddress := client
          clientAddressPlus :=
            if client = s.dhcpsPoll.endIp then s.dhcpsPoll.startIp else nextAddr client
          plist := nodeInsertToList s.plist ⟨client, mac, s.leaseTimer⟩ }, true)

/-! ## Time -/

/-- The leases one second later. -/
def decrementTimers (plist : List DhcpsPool) : List DhcpsPool :=
  plist.filterMap fun p =>
    if p.leaseTimer - 1 = 0 then none else some { p with leaseTimer := p.leaseTimer - 1 }

/-- The least timer of a list that is not empty. -/
def minTimer (p : DhcpsPool) (ps : List DhcpsPool) : UInt32 :=
  ps.foldl (fun t q => if q.leaseTimer < t then q.leaseTimer else t) p.leaseTimer

/-- The search begins behind the head of the list, which is never given up. -/
def killOldestDhcpsPool : List DhcpsPool → List DhcpsPool
  | pre :: p :: ps => pre :: (p :: ps).eraseP fun q => q.leaseTimer = minTimer p ps
  | plist => plist

def Dhcps.dhcpsCoarseTmr (s : Dhcps) : Dhcps :=
  let plist := decrementTimers s.plist
  -- the counter is a byte
  if plist.length % 256 ≥ maxStationNum then { s with plist := killOldestDhcpsPool plist }
  else { s with plist := plist }

/-! ## Start and stop -/

def Dhcps.dhcpsStart (s : Dhcps) (ip : Ip4) : Dhcps :=
  let poll := dhcpsPollSet s.dhcpsPoll ip
  { s with serverAddress := ip, dhcpsPoll := poll, clientAddressPlus := poll.startIp }

def Dhcps.dhcpsStop (s : Dhcps) : Dhcps := { s with plist := [] }

end Chooser
