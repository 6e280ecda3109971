import Chooser.Dhcps.Message

/-!
# What the address server answers

An answer is the message of the client with another head and other options.  A client that reads it
finds its own transaction and hardware address, the address that it is to have, and the options that
the server wrote (`decode_sendReply`).

Reading a message is the reverse: on options that a client wrote, the loop of the server finds the
last type of message and the last address that is asked for (`walk_options`).
-/

namespace Chooser

open CStr Ip4 Tlv

/-! ## Reading an answer -/

namespace Reply

variable (r : Reply)

def xid : Bytes := (r.payload.drop 4).take 4
def yiaddr : Bytes := (r.payload.drop 16).take 4
def chaddr : Bytes := (r.payload.drop 28).take 16
def cookie : Bytes := (r.payload.drop 236).take 4
def options : List Item := decode dhcpOptionEnd (r.payload.drop 240)

end Reply

section Reply

variable {opts : List Item}

lemma length_createMsg (m : DhcpsMsg) (client : Ip4) :
    (createMsg m client).length = m.bytes.length := by
  have hsize := m.size
  have hxid : m.xid.length = 4 := m.length_field (by decide)
  have hchaddr : m.chaddr.length = 16 := m.length_field (by decide)
  simp only [createMsg, List.length_append, hxid, hchaddr, length_bytes, List.length_replicate,
    List.length_drop, List.length_cons, List.length_nil, magicCookie]
  omega

lemma drop_take_append {a b c : Bytes} {n k : ℕ} (ha : a.length = n) (hb : b.length = k) :
    ((a ++ (b ++ c)).drop n).take k = b := by
  rw [List.drop_left' ha, List.take_left' hb]

/-- What the head of an answer says. -/
lemma createMsg_fields (m : DhcpsMsg) (client : Ip4) :
    ((createMsg m client).drop 4).take 4 = m.xid ∧
      ((createMsg m client).drop 16).take 4 = client.bytes ∧
      ((createMsg m client).drop 28).take 16 = m.chaddr ∧
      ((createMsg m client).drop 236).take 4 = magicCookie := by
  have hxid : m.xid.length = 4 := m.length_field (by decide)
  have hchaddr : m.chaddr.length = 16 := m.length_field (by decide)
  unfold createMsg
  refine ⟨?_, ?_, ?_, ?_⟩
  · simp only [List.append_assoc]
    exact drop_take_append rfl hxid
  · rw [List.append_assoc, List.append_assoc, List.append_assoc, List.append_assoc,
      List.append_assoc, List.append_assoc, List.append_assoc, List.append_assoc]
    exact drop_take_append (by simp [hxid]) rfl
  · rw [List.append_assoc, List.append_assoc, List.append_assoc, List.append_assoc,
      List.append_assoc]
    exact drop_take_append (by simp [hxid]) hchaddr
  · rw [List.append_assoc, List.append_assoc]
    refine drop_take_append ?_ rfl
    simp only [List.length_append, hxid, hchaddr, length_bytes, List.length_replicate,
      List.length_cons, List.length_nil]

/-- Writing behind a field leaves it. -/
lemma memcpy_field {b src : Bytes} {pos n k : ℕ} (h : n + k ≤ pos) (hpos : pos ≤ b.length) :
    ((memcpy b pos src).drop n).take k = (b.drop n).take k := by
  have htake : (b.take pos).length = pos := List.length_take_of_le hpos
  rw [memcpy, List.append_assoc, List.drop_append_of_le_length (by omega),
    List.take_append_of_le_length (by rw [List.length_drop]; omega), List.drop_take, List.take_take,
    min_eq_left (by omega)]

/-- **An answer is read as it was meant**, if its options fit into the message. -/
theorem decode_sendReply (m : DhcpsMsg) (client : Ip4) (hcode : ∀ x ∈ opts, x.code ≠ dhcpOptionEnd)
    (hfit : (encode opts).length < 308) :
    (sendReply m client opts).payload.length = m.bytes.length ∧
      (sendReply m client opts).xid = m.xid ∧
      (sendReply m client opts).yiaddr = client.bytes ∧
      (sendReply m client opts).chaddr = m.chaddr ∧
      (sendReply m client opts).cookie = magicCookie ∧
      (sendReply m client opts).options = opts := by
  have hsize := m.size
  have hlen := length_createMsg m client
  obtain ⟨hxid, hyiaddr, hchaddr, hcookie⟩ := createMsg_fields m client
  have hin : 240 + (encode opts ++ [dhcpOptionEnd]).length ≤ (createMsg m client).length := by
    rw [hlen, List.length_append, List.length_singleton]
    omega
  have h240 : 240 ≤ (createMsg m client).length := by omega
  refine ⟨(length_memcpy hin).trans hlen, ?_, ?_, ?_, ?_, ?_⟩
  · exact (memcpy_field (by decide) h240).trans hxid
  · exact (memcpy_field (by decide) h240).trans hyiaddr
  · exact (memcpy_field (by decide) h240).trans hchaddr
  · exact (memcpy_field (by decide) h240).trans hcookie
  · have htake : ((createMsg m client).take 240).length = 240 := List.length_take_of_le h240
    rw [Reply.options, sendReply, memcpy, List.append_assoc, List.drop_left' htake,
      List.append_assoc, List.singleton_append]
    exact decode_encode hcode _

end Reply

/-! ## The options of an answer -/

section Options

variable {s : Dhcps} {gw : Ip4}

lemma routerOption_cases (s : Dhcps) (gw : Ip4) :
    routerOption s gw = [] ∨ routerOption s gw = [⟨dhcpOptionRouter, gw.bytes, by simp⟩] := by
  unfold routerOption
  split_ifs
  · exact Or.inr rfl
  · exact Or.inl rfl

/-- None of the options ends the options. -/
lemma addOfferOptions_code_ne {s : Dhcps} {gw : Ip4} {x : Item}
    (hx : x ∈ addOfferOptions s gw) : x.code ≠ dhcpOptionEnd := by
  rcases List.mem_append.mp hx with hx | hx
  · rcases List.mem_append.mp hx with hx | hx
    · simp only [List.mem_cons, List.not_mem_nil, or_false] at hx
      rcases hx with rfl | rfl | rfl <;> (dsimp only; decide)
    · rcases routerOption_cases s gw with h | h <;> rw [h] at hx
      · cases hx
      · rw [List.mem_singleton] at hx
        subst hx
        dsimp only
        decide
  · simp only [List.mem_cons, List.not_mem_nil, or_false] at hx
    rcases hx with rfl | rfl | rfl | rfl | rfl <;> (dsimp only; decide)

lemma length_encode_addOfferOptions (s : Dhcps) (gw : Ip4) :
    (encode (addOfferOptions s gw)).length ≤ 51 := by
  rw [addOfferOptions, encode_append, encode_append, List.length_append, List.length_append]
  rcases routerOption_cases s gw with h | h <;> rw [h]
  · exact (by decide : 18 + 0 + 27 ≤ 51)
  · exact (by decide : 18 + 6 + 27 ≤ 51)

end Options

/-! ## Reading the options of a client -/

/-- The last option with this code. -/
def lastOption (code : UInt8) (opts : List Item) : Option Item :=
  (opts.filter fun x => x.code = code).getLast?

/-- The type of a message, by its options. -/
def messageType (opts : List Item) : UInt8 :=
  match lastOption dhcpOptionMsgType opts with
  | some x => x.payload.headD 0
  | none => 0

/-- The address that a message asks for, by its options, compared with the one that the server has
for the client. -/
def wantedState (client : Ip4) (opts : List Item) : DhcpsState :=
  match lastOption dhcpOptionReqIpaddr opts with
  | some x => if client.bytes = x.payload.take 4 then .ack else .nak
  | none => .idle

/-- The options that the server reads are long enough for that. -/
structure Readable (opts : List Item) : Prop where
  code : ∀ x ∈ opts, x.code ≠ dhcpOptionEnd
  msgType : ∀ x ∈ opts, x.code = dhcpOptionMsgType → x.payload ≠ []
  reqIpaddr : ∀ x ∈ opts, x.code = dhcpOptionReqIpaddr → 4 ≤ x.payload.length

section Reading

variable {client : Ip4} {mem : ℕ → UInt8} {opts : List Item}

/-- What an option does, by what it is. -/
def OptionScan.read (client : Ip4) (s : OptionScan) (x : Item) : OptionScan :=
  if x.code = dhcpOptionMsgType then { s with type := x.payload.headD 0 }
  else if x.code = dhcpOptionReqIpaddr then
    { s with state := if client.bytes = x.payload.take 4 then .ack else .nak }
  else s

lemma OptionScan.item_eq_read {x : Item} {pos : ℕ} (s : OptionScan) (hmem : Holds mem pos x.bytes)
    (htype : x.code = dhcpOptionMsgType → x.payload ≠ [])
    (haddr : x.code = dhcpOptionReqIpaddr → 4 ≤ x.payload.length) :
    OptionScan.item client mem s pos = OptionScan.read client s x := by
  rw [OptionScan.item, OptionScan.read, hmem.code]
  by_cases h53 : x.code = dhcpOptionMsgType
  · obtain ⟨c, cs, hpayload⟩ := List.exists_cons_of_ne_nil (htype h53)
    have hc : mem (pos + 2) = c := hmem.payload (i := 0) (by rw [hpayload]; rfl)
    rw [if_pos h53, if_pos h53, hpayload, hc]
    rfl
  · rw [if_neg h53, if_neg h53]
    by_cases h50 : x.code = dhcpOptionReqIpaddr
    · have hlen := haddr h50
      rw [if_pos h50, if_pos h50]
      match hpayload : x.payload with
      | b₀ :: b₁ :: b₂ :: b₃ :: rest =>
          have h0 : mem (pos + 2) = b₀ := hmem.payload (i := 0) (by rw [hpayload]; rfl)
          have h1 : mem (pos + 3) = b₁ := hmem.payload (i := 1) (by rw [hpayload]; rfl)
          have h2 : mem (pos + 4) = b₂ := hmem.payload (i := 2) (by rw [hpayload]; rfl)
          have h3 : mem (pos + 5) = b₃ := hmem.payload (i := 3) (by rw [hpayload]; rfl)
          rw [h0, h1, h2, h3]
          rfl
      | [] => simp [hpayload] at hlen
      | [_] => simp [hpayload] at hlen
      | [_, _] => simp [hpayload] at hlen
      | [_, _, _] => simp [hpayload] at hlen
    · rw [if_neg h50, if_neg h50]

lemma lastOption_concat (code : UInt8) (opts : List Item) (x : Item) :
    lastOption code (opts ++ [x]) = if x.code = code then some x else lastOption code opts := by
  rw [lastOption, List.filter_append]
  by_cases hx : x.code = code
  · rw [if_pos hx]
    simp [hx]
  · rw [if_neg hx, lastOption]
    simp [hx]

/-- Going through the options leaves the last of each kind. -/
lemma foldl_read (client : Ip4) (opts : List Item) :
    opts.foldl (OptionScan.read client) ⟨0, .idle⟩
      = ⟨messageType opts, wantedState client opts⟩ := by
  induction opts using List.reverseRecOn with
  | nil => rfl
  | append_singleton opts x ih =>
      have hne : dhcpOptionMsgType ≠ dhcpOptionReqIpaddr := by decide
      rw [List.foldl_concat, ih, OptionScan.read]
      by_cases h53 : x.code = dhcpOptionMsgType
      · have h50 : x.code ≠ dhcpOptionReqIpaddr := fun h => hne (h53.symm.trans h)
        simp [messageType, wantedState, lastOption_concat, h53, hne]
      · by_cases h50 : x.code = dhcpOptionReqIpaddr
        · simp [messageType, wantedState, lastOption_concat, h50, Ne.symm hne]
        · simp [messageType, wantedState, lastOption_concat, h53, h50]

/-- **What a client writes is what the server reads.** -/
theorem walk_options {len : ℕ} (hread : Readable opts) (hmem : Holds mem 240 (encode opts))
    (hlen : (encode opts).length ≤ len)
    (hend : len ≤ (encode opts).length ∨ mem (240 + (encode opts).length) = dhcpOptionEnd) :
    walk dhcpOptionEnd mem (OptionScan.item client mem) (240 + len) len 240 ⟨0, .idle⟩
      = ⟨messageType opts, wantedState client opts⟩ := by
  rw [← foldl_read]
  exact walk_encode _ hmem hread.code (by omega) (hend.imp (fun h => by omega) id) le_rfl
    fun s p x hx hp => s.item_eq_read hp (hread.msgType x hx) (hread.reqIpaddr x hx)

/-- **The server looks at five bytes behind the options at most.** -/
theorem parseOptions_congr {mem' : ℕ → UInt8} {optptr len : ℕ} (renew : Bool)
    (h : ∀ i, i < optptr + len + 5 → mem i = mem' i) :
    parseOptions client renew mem optptr len = parseOptions client renew mem' optptr len := by
  refine congrArg (OptionScan.answer renew) (walk_congr (fun i hi => h i (by omega)) ?_ _ _ _)
  intro s p hp
  rw [OptionScan.item, OptionScan.item, h p (by omega), h (p + 2) (by omega), h (p + 3) (by omega),
    h (p + 4) (by omega), h (p + 5) (by omega)]

end Reading

/-! ## What a message wants -/

/-- The type of a message, as the server reads it. -/
def Datagram.msgType (p : Datagram) : UInt8 :=
  walk dhcpOptionEnd (p.message.memory p.behind)
    (fun type optptr =>
      if p.message.memory p.behind optptr = dhcpOptionMsgType then
        p.message.memory p.behind (optptr + 2)
      else type)
    (240 + (p.totLen - 240)) (p.totLen - 240) 240 0

/-- What the server makes of the options of a datagram. -/
def Datagram.wish (p : Datagram) (client : Ip4) (renew : Bool) : DhcpsState :=
  parseOptions client renew (p.message.memory p.behind) 240 (p.totLen - 240)

/-- The options only ever set the state to one of these. -/
def DhcpsState.Scanned (s : DhcpsState) : Prop := s = .idle ∨ s = .ack ∨ s = .nak

section Wish

variable {client : Ip4} {renew : Bool} {p : Datagram}

/-- The loop over the options of a datagram. -/
def Datagram.scan (p : Datagram) (client : Ip4) : OptionScan :=
  walk dhcpOptionEnd (p.message.memory p.behind)
    (OptionScan.item client (p.message.memory p.behind)) (240 + (p.totLen - 240)) (p.totLen - 240)
    240 ⟨0, .idle⟩

lemma Datagram.scan_type (p : Datagram) (client : Ip4) : (p.scan client).type = p.msgType := by
  refine walk_map OptionScan.type (fun s pos => ?_) _ _ _
  rw [OptionScan.item]
  split_ifs <;> rfl

lemma Datagram.scan_state (p : Datagram) (client : Ip4) : (p.scan client).state.Scanned := by
  refine walk_inv (P := fun s : OptionScan => s.state.Scanned) (fun s pos _ hs => ?_) _ _
    (Or.inl rfl)
  rw [OptionScan.item]
  split_ifs
  · exact hs
  · dsimp only
    split_ifs
    · exact Or.inr (Or.inl rfl)
    · exact Or.inr (Or.inr rfl)
  · exact hs

lemma Datagram.wish_eq (p : Datagram) (client : Ip4) (renew : Bool) :
    p.wish client renew = (p.scan client).answer renew := rfl

/-- **A lease is given back by a release, and by nothing else.** -/
lemma Datagram.wish_eq_release_iff : p.wish client renew = .release ↔ p.msgType = dhcpRelease := by
  have hstate := p.scan_state client
  rw [Datagram.wish_eq, ← p.scan_type client, OptionScan.answer]
  constructor
  · intro h
    split_ifs at h with h1 h3 hs hr h4 h7
    · rcases hs with hs | hs <;> rw [hs] at h <;> cases h
    · exact h7
    · rcases hstate with hs | hs | hs <;> rw [hs] at h <;> cases h
  · intro h7
    have h1 : (p.scan client).type ≠ dhcpDiscover := by rw [h7]; decide
    have h3 : (p.scan client).type ≠ dhcpRequest := by rw [h7]; decide
    have h4 : (p.scan client).type ≠ dhcpDecline := by rw [h7]; decide
    rw [if_neg h1, if_neg h3, if_neg h4, if_pos h7]

lemma Datagram.wish_of_discover (h : p.msgType = dhcpDiscover) : p.wish client renew = .offer := by
  rw [Datagram.wish_eq, OptionScan.answer, if_pos ((p.scan_type client).trans h)]

end Wish

/-- The datagram has these options, as a client writes them. -/
structure Datagram.Carries (p : Datagram) (opts : List Item) : Prop where
  readable : Readable opts
  bytes : ∃ rest, p.message.bytes.drop 240 = encode opts ++ dhcpOptionEnd :: rest
  len : (encode opts).length ≤ p.totLen - 240

/-- A request is for this address: by an option, or else by the address that the client uses. -/
def Datagram.Asks (p : Datagram) (opts : List Item) (a : Ip4) : Prop :=
  match lastOption dhcpOptionReqIpaddr opts with
  | some x => x.payload.take 4 = a.bytes
  | none => p.message.ciaddr = a.bytes

section Carries

variable {client : Ip4} {renew : Bool} {p : Datagram} {opts : List Item}

lemma Datagram.Carries.memory (h : p.Carries opts) :
    Holds (p.message.memory p.behind) 240 (encode opts ++ [dhcpOptionEnd]) := by
  obtain ⟨rest, hbytes⟩ := h.bytes
  intro i x hi
  have hlt := (List.getElem?_eq_some_iff.mp hi).1
  have hget : p.message.bytes[240 + i]? = some x := by
    rw [← List.getElem?_drop, hbytes, ← List.singleton_append (l := rest), ← List.append_assoc,
      List.getElem?_append_left hlt, hi]
  rw [DhcpsMsg.memory, hget, Option.getD_some]

/-- The server reads from a datagram what its options say. -/
lemma Datagram.Carries.scan_eq (h : p.Carries opts) (client : Ip4) :
    p.scan client = ⟨messageType opts, wantedState client opts⟩ := by
  have hmem := h.memory
  exact walk_options h.readable hmem.left h.len (Or.inr (hmem.right 0 _ rfl))

lemma Datagram.Carries.msgType_eq (h : p.Carries opts) : p.msgType = messageType opts := by
  rw [← p.scan_type 0, h.scan_eq]

lemma OptionScan.answer_request (renew : Bool) (state : DhcpsState) :
    (OptionScan.mk dhcpRequest state).answer renew
      = if state = .ack ∨ state = .nak then state else if renew then .ack else .nak := by
  have hne : dhcpRequest ≠ dhcpDiscover := by decide
  rw [OptionScan.answer, if_neg hne, if_pos rfl]

/-- **A request** is for the address of the client, or it is refused. -/
lemma Datagram.Carries.wish_request (h : p.Carries opts) (htype : messageType opts = dhcpRequest)
    (hrenew : renew = true ↔ client.bytes = p.message.ciaddr) :
    (p.Asks opts client → p.wish client renew = .ack) ∧
      (¬ p.Asks opts client → p.wish client renew = .nak) := by
  rw [Datagram.wish_eq, h.scan_eq, htype, OptionScan.answer_request, Datagram.Asks]
  cases hlast : lastOption dhcpOptionReqIpaddr opts with
  | none =>
      have hstate : wantedState client opts = .idle := by rw [wantedState, hlast]
      have hidle : ¬ (DhcpsState.idle = .ack ∨ DhcpsState.idle = .nak) := by decide
      rw [hstate, if_neg hidle]
      constructor
      · intro hasks
        rw [if_pos (hrenew.mpr hasks.symm)]
      · intro hasks
        rw [if_neg fun hr => hasks (hrenew.mp hr).symm]
  | some x =>
      have hstate : wantedState client opts
          = if client.bytes = x.payload.take 4 then .ack else .nak := by rw [wantedState, hlast]
      constructor
      · intro hasks
        have hack : wantedState client opts = .ack := hstate.trans (if_pos hasks.symm)
        rw [hack, if_pos (Or.inl rfl)]
      · intro hasks
        have hnak : wantedState client opts = .nak := hstate.trans (if_neg (Ne.symm hasks))
        rw [hnak, if_pos (Or.inr rfl)]

end Carries

/-! ## What an answer grants -/

/-- The number that these bytes make, most significant first. -/
def beNat (b : Bytes) : ℕ := b.foldl (fun n c => n * 256 + c.toNat) 0

/-- The lease time that an answer announces, in seconds. -/
def Reply.leaseSeconds (r : Reply) : ℕ :=
  match lastOption dhcpOptionLeaseTime r.options with
  | some x => beNat x.payload
  | none => 0

/-- An offer or an acknowledgement of an address. -/
def Reply.Grants (r : Reply) (a : Ip4) : Prop :=
  r.yiaddr = a.bytes ∧ (messageType r.options = dhcpOffer ∨ messageType r.options = dhcpAck)

section Grants

variable {s : Dhcps} {gw client : Ip4} {m : DhcpsMsg} {p : Datagram} {r : Reply}

lemma lastOption_cons (code : UInt8) (x : Item) (opts : List Item) :
    lastOption code (x :: opts)
      = (lastOption code opts).or (if x.code = code then some x else none) := by
  rw [lastOption, lastOption]
  by_cases hx : x.code = code
  · rw [List.filter_cons_of_pos (by simpa using hx), List.getLast?_cons, if_pos hx]
    cases (opts.filter fun x => x.code = code).getLast? <;> rfl
  · rw [List.filter_cons_of_neg (by simpa using hx), if_neg hx, Option.or_none]

lemma lastOption_append (code : UInt8) (xs ys : List Item) :
    lastOption code (xs ++ ys) = (lastOption code ys).or (lastOption code xs) := by
  induction xs with
  | nil => simp [lastOption]
  | cons x xs ih => rw [List.cons_append, lastOption_cons, ih, lastOption_cons, Option.or_assoc]

lemma lastOption_routerOption {code : UInt8} (hcode : code ≠ dhcpOptionRouter) (s : Dhcps)
    (gw : Ip4) : lastOption code (routerOption s gw) = none := by
  rcases routerOption_cases s gw with h | h <;> rw [h]
  · rfl
  · rw [lastOption_cons, if_neg (Ne.symm hcode)]
    rfl

/-- The type of the answer is the one that it was given. -/
lemma messageType_reply (type : UInt8) (s : Dhcps) (gw : Ip4) :
    messageType (addMsgType type :: addOfferOptions s gw) = type := by
  rw [messageType, lastOption_cons, addOfferOptions, lastOption_append, lastOption_append,
    lastOption_routerOption (by decide)]
  rfl

/-- The four bytes of a number, most significant first. -/
def bigEndian (n : ℕ) : Bytes := [n / 2 ^ 24, n / 2 ^ 16, n / 2 ^ 8, n].map Nat.toUInt8

/-- They are the ones that the server takes out of a word. -/
lemma bigEndian_toNat (t : UInt32) :
    [(t >>> 24 &&& 0xFF).toUInt8, (t >>> 16 &&& 0xFF).toUInt8, (t >>> 8 &&& 0xFF).toUInt8,
      (t >>> 0 &&& 0xFF).toUInt8] = bigEndian t.toNat := by
  have hbyte : ∀ k : UInt32,
      (t >>> k &&& 0xFF).toUInt8 = (t.toNat / 2 ^ (k.toNat % 32)).toUInt8 := by
    intro k
    have hmask : (0xFF : UInt32).toNat = 2 ^ 8 - 1 := rfl
    refine UInt8.toNat_inj.mp ?_
    rw [UInt32.toNat_toUInt8, UInt32.toNat_and, hmask, Nat.and_two_pow_sub_one_eq_mod,
      UInt32.toNat_shiftRight, Nat.shiftRight_eq_div_pow, Nat.mod_mod]
    rfl
  rw [hbyte, hbyte, hbyte, hbyte]
  exact congrArg (fun n => [_, _, _, Nat.toUInt8 n]) (Nat.div_one _)

lemma beNat_bigEndian {n : ℕ} (h : n < 2 ^ 32) : beNat (bigEndian n) = n := by
  have hbyte : ∀ n : ℕ, n.toUInt8.toNat = n % 256 := fun n => rfl
  simp only [bigEndian, beNat, List.map_cons, List.map_nil, List.foldl_cons, List.foldl_nil, hbyte]
  omega

lemma grant_code_ne (type : UInt8) (s : Dhcps) (gw : Ip4) :
    ∀ x ∈ addMsgType type :: addOfferOptions s gw, x.code ≠ dhcpOptionEnd := by
  intro x hx
  rcases List.mem_cons.mp hx with rfl | hx
  · exact (by decide : dhcpOptionMsgType ≠ dhcpOptionEnd)
  · exact addOfferOptions_code_ne hx

lemma grant_fits (type : UInt8) (s : Dhcps) (gw : Ip4) :
    (encode (addMsgType type :: addOfferOptions s gw)).length < 308 := by
  have hlen := length_encode_addOfferOptions s gw
  rw [encode_cons, List.length_append, Item.length_bytes]
  have hone : (addMsgType type).payload.length = 1 := rfl
  omega

/-- **An offer or an acknowledgement, as the client reads it.** -/
theorem grant_reads (type : UInt8) (s : Dhcps) (gw : Ip4) (m : DhcpsMsg) :
    let r := sendReply m s.clientAddress (addMsgType type :: addOfferOptions s gw)
    r.xid = m.xid ∧ r.chaddr = m.chaddr ∧ r.yiaddr = s.clientAddress.bytes ∧
      messageType r.options = type ∧ r.leaseSeconds = s.leaseTimer.toNat := by
  obtain ⟨_, hxid, hyiaddr, hchaddr, _, hoptions⟩ :=
    decode_sendReply m s.clientAddress (grant_code_ne type s gw) (grant_fits type s gw)
  refine ⟨hxid, hchaddr, hyiaddr, ?_, ?_⟩
  · rw [hoptions, messageType_reply]
  · have htime : s.leaseTimer = s.dhcpsLeaseTime * dhcpsLeaseUnit := UInt32.div_one
    rw [Reply.leaseSeconds, hoptions, lastOption_cons, addOfferOptions, lastOption_append,
      lastOption_append, lastOption_routerOption (by decide), htime]
    exact (congrArg beNat (bigEndian_toNat _)).trans (beNat_bigEndian (UInt32.toNat_lt _))

lemma nak_code_ne : ∀ x ∈ [addMsgType dhcpNak], x.code ≠ dhcpOptionEnd := by
  intro x hx
  rw [List.mem_singleton.mp hx]
  exact (by decide : dhcpOptionMsgType ≠ dhcpOptionEnd)

/-- A refusal, as the client reads it. -/
lemma nak_reads (m : DhcpsMsg) (s : Dhcps) :
    (sendNak s m).xid = m.xid ∧ messageType (sendNak s m).options = dhcpNak := by
  obtain ⟨_, hxid, _, _, _, hoptions⟩ :=
    decode_sendReply m s.clientAddress nak_code_ne (by decide)
  refine ⟨hxid, ?_⟩
  rw [sendNak, hoptions]
  rfl

/-- What is granted is the address that the server has found, and it was offered or acknowledged. -/
lemma Dhcps.answer_grants {ret : DhcpsState} {a : Ip4} (h : s.answer gw p ret = some r)
    (hr : r.Grants a) : (ret = .offer ∨ ret = .ack) ∧ a = s.clientAddress ∧
      r.xid = p.message.xid ∧ r.chaddr = p.message.chaddr ∧
      r.leaseSeconds = s.leaseTimer.toNat := by
  obtain ⟨hyiaddr, htype⟩ := hr
  cases ret with
  | offer =>
      simp only [Dhcps.answer, Option.ite_none_right_eq_some, Option.some.injEq] at h
      obtain ⟨_, rfl⟩ := h
      obtain ⟨hxid, hchaddr, haddr, _, hseconds⟩ := grant_reads dhcpOffer s gw p.message
      exact ⟨Or.inl rfl, bytes_injective (hyiaddr.symm.trans haddr), hxid, hchaddr, hseconds⟩
  | ack =>
      simp only [Dhcps.answer, Option.ite_none_right_eq_some, Option.some.injEq] at h
      obtain ⟨_, rfl⟩ := h
      obtain ⟨hxid, hchaddr, haddr, _, hseconds⟩ := grant_reads dhcpAck s gw p.message
      exact ⟨Or.inr rfl, bytes_injective (hyiaddr.symm.trans haddr), hxid, hchaddr, hseconds⟩
  | nak =>
      simp only [Dhcps.answer, Option.ite_none_right_eq_some, Option.some.injEq] at h
      obtain ⟨_, rfl⟩ := h
      rw [(nak_reads _ _).2] at htype
      rcases htype with htype | htype <;> exact absurd htype (by decide)
  | none => cases h
  | decline => cases h
  | idle => cases h
  | release => cases h

end Grants

end Chooser
