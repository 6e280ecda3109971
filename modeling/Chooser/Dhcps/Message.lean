import Chooser.Dhcps.Pool
import Chooser.Lib.Tlv

/-!
# Messages to the address server

A message is copied into a buffer, answered there, and sent back to all stations.  What the client
wants is in the options; that the server looks at an address for it first, and at the options then,
is what the source does.  Memory for a new lease is not checked for by the source and taken to be
there; that for the answer is checked.
-/

namespace Chooser

open CStr Ip4

def dhcpDiscover : UInt8 := 1
def dhcpOffer : UInt8 := 2
def dhcpRequest : UInt8 := 3
def dhcpDecline : UInt8 := 4
def dhcpAck : UInt8 := 5
def dhcpNak : UInt8 := 6
def dhcpRelease : UInt8 := 7

def dhcpOptionSubnetMask : UInt8 := 1
def dhcpOptionRouter : UInt8 := 3
def dhcpOptionDnsServer : UInt8 := 6
def dhcpOptionInterfaceMtu : UInt8 := 26
def dhcpOptionBroadcastAddress : UInt8 := 28
def dhcpOptionPerformRouterDiscovery : UInt8 := 31
def dhcpOptionReqIpaddr : UInt8 := 50
def dhcpOptionLeaseTime : UInt8 := 51
def dhcpOptionMsgType : UInt8 := 53
def dhcpOptionServerId : UInt8 := 54
def dhcpOptionEnd : UInt8 := 255

/-- The bytes of `magic_cookie`. -/
def magicCookie : Bytes := [0x63, 0x82, 0x53, 0x63]

/-- What the server makes of a message.  `none` is the value 0. -/
inductive DhcpsState where
  | none
  | offer
  | decline
  | ack
  | nak
  | idle
  | release
deriving DecidableEq

/-- `struct dhcps_msg`, with whatever the buffer holds behind it. -/
structure DhcpsMsg where
  bytes : Bytes
  size : 548 ≤ bytes.length

namespace DhcpsMsg

variable (m : DhcpsMsg)

def field (offset size : ℕ) : Bytes := (m.bytes.drop offset).take size

def xid : Bytes := m.field 4 4
def ciaddr : Bytes := m.field 12 4
def yiaddr : Bytes := m.field 16 4
def chaddr : Bytes := m.field 28 16
def options : Bytes := m.bytes.drop 236

lemma length_field {offset size : ℕ} (h : offset + size ≤ 548) :
    (m.field offset size).length = size := by
  have hsize := m.size
  rw [field, List.length_take, List.length_drop]
  omega

/-- The bytes of `chaddr` that the server looks at. -/
def mac : Mac := ⟨m.field 28 6, m.length_field (by decide)⟩

/-- The memory from the buffer on; what is `behind` the buffer is not the server's. -/
def memory (behind : ℕ → UInt8) (i : ℕ) : UInt8 := (m.bytes[i]?).getD (behind i)

end DhcpsMsg

/-! ## Reading the options -/

/-- What the loop of `parse_options` keeps: `type` and `s.state`. -/
structure OptionScan where
  type : UInt8
  state : DhcpsState

/-- One option.  Its own length is not looked at. -/
def OptionScan.item (client : Ip4) (mem : ℕ → UInt8) (s : OptionScan) (optptr : ℕ) : OptionScan :=
  if mem optptr = dhcpOptionMsgType then { s with type := mem (optptr + 2) }
  else if mem optptr = dhcpOptionReqIpaddr then
    let wanted := [mem (optptr + 2), mem (optptr + 3), mem (optptr + 4), mem (optptr + 5)]
    { s with state := if client.bytes = wanted then .ack else .nak }
  else s

/-- The switch behind the loop. -/
def OptionScan.answer (renew : Bool) (s : OptionScan) : DhcpsState :=
  if s.type = dhcpDiscover then .offer
  else if s.type = dhcpRequest then
    if s.state = .ack ∨ s.state = .nak then s.state else if renew then .ack else .nak
  else if s.type = dhcpDecline then .idle
  else if s.type = dhcpRelease then .release
  else s.state

def parseOptions (client : Ip4) (renew : Bool) (mem : ℕ → UInt8) (optptr len : ℕ) : DhcpsState :=
  (Tlv.walk dhcpOptionEnd mem (OptionScan.item client mem) (optptr + len) len optptr
    ⟨0, .idle⟩).answer renew

/-! ## Handling a message -/

/-- `len` is the number of bytes of options that were received. -/
def Dhcps.parseMsg (s : Dhcps) (m : DhcpsMsg) (behind : ℕ → UInt8) (len : ℕ) :
    Dhcps × DhcpsState :=
  if m.options.take 4 = magicCookie then
    let (s, pnode) := s.findAddress m.mac m.ciaddr
    let removed := if pnode then nodeRemoveFromList s.plist m.mac else s.plist
    if s.clientAddress > s.dhcpsPoll.endIp ∨ s.clientAddress = 0 then
      ({ s with plist := removed }, .nak)
    else
      let ret := parseOptions s.clientAddress s.renew (m.memory behind) 240 len
      if ret = .release then ({ s with plist := removed, clientAddress := 0 }, ret) else (s, ret)
  else (s, .none)

/-- The head of an answer.  `xid`, `chaddr` and what is behind the options stay. -/
def createMsg (m : DhcpsMsg) (client : Ip4) : Bytes :=
  [2, 1, 6, 0] ++ m.xid ++ [0, 0] ++ [0x80, 0] ++ List.replicate 4 0 ++ client.bytes ++
    List.replicate 4 0 ++ List.replicate 4 0 ++ m.chaddr ++ List.replicate 64 0 ++
    List.replicate 128 0 ++ magicCookie ++ List.replicate 308 0 ++ m.bytes.drop 548

def addMsgType (type : UInt8) : Tlv.Item := ⟨dhcpOptionMsgType, [type], by simp⟩

/-- The router, if it is to be offered and there is one. -/
def routerOption (s : Dhcps) (gw : Ip4) : List Tlv.Item :=
  if s.dhcpsOffer &&& 0x01 ≠ 0 ∧ gw ≠ 0 then [⟨dhcpOptionRouter, gw.bytes, by simp⟩] else []

/-- The name server: the one that was set, or the access point itself. -/
def dnsAddress (s : Dhcps) : Ip4 :=
  if s.dhcpsDns &&& 0x02 ≠ 0 then s.dnsServer else s.serverAddress

/-- `gw` is the router of the access point. -/
def addOfferOptions (s : Dhcps) (gw : Ip4) : List Tlv.Item :=
  let ipadd := s.serverAddress
  let time := s.dhcpsLeaseTime * dhcpsLeaseUnit
  [⟨dhcpOptionSubnetMask, [255, 255, 255, 0], by simp⟩,
    ⟨dhcpOptionLeaseTime, [(time >>> 24 &&& 0xFF).toUInt8, (time >>> 16 &&& 0xFF).toUInt8,
      (time >>> 8 &&& 0xFF).toUInt8, (time >>> 0 &&& 0xFF).toUInt8], by simp⟩,
    ⟨dhcpOptionServerId, ipadd.bytes, by simp⟩] ++
  routerOption s gw ++
  [⟨dhcpOptionDnsServer, (dnsAddress s).bytes, by simp⟩,
    ⟨dhcpOptionBroadcastAddress, ipadd.bytes.take 3 ++ [255], by simp⟩,
    ⟨dhcpOptionInterfaceMtu, [0x02, 0x40], by simp⟩,
    ⟨dhcpOptionPerformRouterDiscovery, [0x00], by simp⟩,
    ⟨43, [0x01, 4, 0x00, 0x00, 0x00, 0x02], by simp⟩]

/-- A datagram that is sent. -/
structure Reply where
  dest : Ip4
  port : ℕ
  payload : Bytes

/-- The options are written behind the cookie, and the buffer is sent to everyone. -/
def sendReply (m : DhcpsMsg) (client : Ip4) (options : List Tlv.Item) : Reply where
  dest := Ip4.ofBytes 255 255 255 255
  port := 68
  payload := memcpy (createMsg m client) 240 (Tlv.encode options ++ [dhcpOptionEnd])

def sendOffer (s : Dhcps) (gw : Ip4) (m : DhcpsMsg) : Reply :=
  sendReply m s.clientAddress (addMsgType dhcpOffer :: addOfferOptions s gw)

def sendAck (s : Dhcps) (gw : Ip4) (m : DhcpsMsg) : Reply :=
  sendReply m s.clientAddress (addMsgType dhcpAck :: addOfferOptions s gw)

def sendNak (s : Dhcps) (m : DhcpsMsg) : Reply :=
  sendReply m s.clientAddress [addMsgType dhcpNak]

/-- A datagram that arrives, in the pieces in which it lies in memory, and what the allocator does
while it is handled. -/
structure Datagram where
  pieces : List Bytes
  behind : ℕ → UInt8
  memMalloc : Bool
  pbufAlloc : Bool

def Datagram.totLen (p : Datagram) : ℕ := (p.pieces.map List.length).sum

/-- The buffer: the first two pieces are copied, the rest is zero. -/
def Datagram.message (p : Datagram) : DhcpsMsg where
  bytes := (p.pieces.take 2).flatten ++
    List.replicate (max 548 p.totLen - (p.pieces.take 2).flatten.length) 0
  size := by
    rw [List.length_append, List.length_replicate]
    omega

/-- The length is a signed 16-bit number, and memory of a negative length is not to be had. -/
def Datagram.allocates (p : Datagram) : Bool := p.memMalloc && max 548 p.totLen < 2 ^ 15

/-- The answer that is sent, if there is memory for it. -/
def Dhcps.answer (s : Dhcps) (gw : Ip4) (p : Datagram) : DhcpsState → Option Reply
  | .offer => if p.pbufAlloc then some (sendOffer s gw p.message) else .none
  | .ack => if p.pbufAlloc then some (sendAck s gw p.message) else .none
  | .nak => if p.pbufAlloc then some (sendNak s p.message) else .none
  | _ => .none

def Dhcps.handleDhcp (s : Dhcps) (gw : Ip4) (p : Datagram) : Dhcps × Option Reply :=
  if p.pieces = [] ∨ p.allocates = false then (s, .none)
  else
    let (s, ret) := s.parseMsg p.message p.behind (p.totLen - 240)
    (s, s.answer gw p ret)

end Chooser
