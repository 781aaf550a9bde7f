import Mstack.Net.Codec
import Mstack.Net.Destinations
import Mstack.Net.Pipeline
import Mstack.Net.Sealing

/-!
# A host on a network

A namespace together with its device: what `device::async_receive` reads goes
to `ethernetv2::receive`, and from there to `arp`, to `icmp` or to the
connections (`Netns.receive`).

* `arpOf` — the ARP packet that the bytes of a frame hold, if any.
* `Readable` — the frame is long enough for the headers that its types
  announce.
* `HoldsArp`, `HoldsDatagram`, `Sendable`, `IsSegment` — what travels between
  two layers on the way down, and can be taken by the next one.
* `receive_request`, `receive_reply`, `receive_neither`, `receive_other` —
  **what a received frame does**, case by case.
* `receive_total_iff` — and that being too short is all that a network can do
  wrong.

### Frames as bytes

`Net.Netns` starts where `ethernetv2` dispatches.  Here a frame is the list of
bytes on the wire, and the first layer reads it.  A host that wrote the frame
and a host that reads it are connected by two lemmas: `arpOf_onWire`, that an
ARP packet is read as what was written, and `receive_datagram`, that a datagram
of a host is no ARP packet.

### What is load-bearing

`Readable` follows the headers as the layers read them, and no further: `arp`
reads twenty-eight bytes behind the Ethernet header, `ipv4` twenty, `icmp`
eight behind that if the version is four and the protocol is its own.  None of
them compares a length first.  A frame that is too short is read past its end,
which is a fault here and undefined in the source; everything else, however
malformed, is taken.

What a segment does to its connection is not counted here: the packet is passed
up, and from there it is an event of `tcb_manager`.
-/

namespace Mstack

open BigEndian EventSystem

/-- `icmp::PROTO`. -/
def Icmp.PROTO : BitVec 8 := 0x01

/-- The Ethernet header takes fourteen bytes. -/
theorem EthernetHeader.fixed_consumeFromNet : Fixed size consumeFromNet := by
  have h : Fixed (48 / 8 + (48 / 8 + (16 / 8 + 0))) consumeFromNet :=
    .get_bind fun _ => .get_bind fun _ => .get_bind fun _ => .pure _
  exact h

namespace Netns

/-! ## The way up

`make_packet` and `dispatch`, in the two lower layers. -/

/-- `ipv4::receive(ethernetv2_frame&&)`: `make_packet`, then `dispatch`.  A
segment goes on to the connections; what they send in turn is `Event.enqueue`. -/
def ipv4Receive (s : Netns) (frame : EthernetFrame) : Except NetFault Netns := do
  match ← Ipv4.makePacket frame with
  | none => return s
  | some pkt => if pkt.proto = Icmp.PROTO then s.step (.icmpProcess pkt) else return s

/-- `ethernetv2::receive`, for the bytes that a device has read: `make_packet`,
then `dispatch`. -/
def receive (s : Netns) (dev : DeviceId) (bs : List Byte) : Except NetFault Netns := do
  let frame ← Ethernetv2.makePacket (Device.received bs) dev
  if frame.proto = arpPROTO then s.arpProcess frame
  else if frame.proto = Ipv4.PROTO then s.ipv4Receive frame
  else return s

end Netns

/-- The frame that `ethernetv2::make_packet` makes of a header and what follows
it. -/
def arrived (dev : DeviceId) (eth : EthernetHeader) (rest : List Byte) : EthernetFrame where
  srcMacAddr := eth.srcMacAddr
  dstMacAddr := eth.dstMacAddr
  proto := eth.proto
  skb := ⟨eth.produceToNet, rest, []⟩
  dev := some dev

/-- The ARP packet that a frame holds for those who read it. -/
def arpOf (bs : List Byte) : Option ArpHeader := do
  let (eth, rest) ← EthernetHeader.consumeFromNet (bs.take 1500)
  if eth.proto = Netns.arpPROTO then (ArpHeader.consumeFromNet rest).map Prod.fst else none

/-- The frame is long enough for the headers that its types announce. -/
def Readable (bs : List Byte) : Prop :=
  ∃ eth rest, EthernetHeader.consumeFromNet (bs.take 1500) = some (eth, rest) ∧
    (eth.proto = Netns.arpPROTO → ArpHeader.size ≤ rest.length) ∧
    (eth.proto = Ipv4.PROTO → ∃ ip data, Ipv4Header.consumeFromNet rest = some (ip, data) ∧
      (ip.version = 4 → ip.protoType = Icmp.PROTO → IcmpHeader.size ≤ data.length))

/-- `ethernetv2::make_packet`, on what the device has read. -/
theorem Ethernetv2.makePacket_received {bs rest : List Byte} {eth : EthernetHeader}
    (hread : EthernetHeader.consumeFromNet (bs.take 1500) = some (eth, rest)) (dev : DeviceId) :
    Ethernetv2.makePacket (Device.received bs) dev = .ok (arrived dev eth rest) := by
  have hbytes := EthernetHeader.inverse.eq_write EthernetHeader.fixed_consumeFromNet hread
  have hskb : Device.received bs = ⟨[], eth.produceToNet ++ rest, []⟩ := by
    rw [Device.received, hbytes]
  exact Ethernetv2.makePacket_eq hskb dev

/-- `ipv4::make_packet`, on what the device has read. -/
theorem Ipv4.makePacket_arrived {eth : EthernetHeader} {rest data : List Byte} {ip : Ipv4Header}
    (hread : Ipv4Header.consumeFromNet rest = some (ip, data)) (dev : DeviceId) :
    Ipv4.makePacket (arrived dev eth rest) = .ok (if ip.version = 4 then some
      { srcAddrv4 := ip.srcAddr, dstAddrv4 := ip.dstAddr, proto := ip.protoType,
        skb := ⟨eth.produceToNet ++ ip.produceToNet, data, []⟩ } else none) := by
  have hbytes := Ipv4Header.inverse.eq_write Ipv4Header.fixed_consumeFromNet hread
  by_cases hversion : ip.version = 4
  · rw [if_pos hversion]
    refine Ipv4.makePacket_eq ?_ hversion
    rw [arrived, hbytes]
  · have hlen := (Ipv4Header.fixed_consumeFromNet.of_eq_some hread).1
    have hfirst : ((arrived dev eth rest).skb.payload.headD 0 >>> 4) &&& 0xf ≠ 0x4 := by
      rw [show (arrived dev eth rest).skb.payload = rest from rfl,
        Ipv4Header.headD_of_consume hread]
      intro h
      have hnat : ip.version.toNat % 256 = 4 := by simpa using congrArg BitVec.toNat h
      have hlt := ip.version.isLt
      exact hversion (BitVec.eq_of_toNat_eq (show ip.version.toNat = 4 by omega))
    rw [if_neg hversion]
    simp only [Ipv4.makePacket, show (arrived dev eth rest).skb.payload = rest from rfl,
      if_neg (Nat.not_lt.mpr hlen)]
    exact if_pos hfirst

/-! ## What goes down

What a layer gives to the next one, as far as that one needs to know it. -/

namespace ArpHeader

/-- The header that `arp::async_request` writes. -/
def request (sha : MacAddr) (spa tpa : Ipv4Addr) : ArpHeader :=
  ⟨0x0001, 0x0800, 0x06, 0x04, 0x0001, sha, spa, 0, tpa⟩

/-- The header that `arp::async_reply` writes. -/
def reply (sha : MacAddr) (spa : Ipv4Addr) (tha : MacAddr) (tpa : Ipv4Addr) : ArpHeader :=
  ⟨0x0001, 0x0800, 0x06, 0x04, 0x0002, sha, spa, tha, tpa⟩

/-- A request is one. -/
theorem isRequest_request (sha : MacAddr) (spa tpa : Ipv4Addr) :
    (request sha spa tpa).IsRequest := ⟨rfl, rfl, rfl⟩

/-- So is a reply. -/
theorem isReply_reply (sha : MacAddr) (spa : Ipv4Addr) (tha : MacAddr) (tpa : Ipv4Addr) :
    (reply sha spa tha tpa).IsReply := ⟨rfl, rfl, rfl⟩

instance (h : ArpHeader) : Decidable h.IsRequest :=
  inferInstanceAs (Decidable (h.htype = 0x0001 ∧ h.ptype = 0x0800 ∧ h.oper = 0x0001))

end ArpHeader

namespace EthernetFrame

/-- The bytes that `ethernetv2::process` makes of a frame. -/
def onWire (frame : EthernetFrame) : List Byte :=
  (Ethernetv2.ePacket frame).produceToNet ++ frame.skb.payload

/-- A frame that holds an ARP packet, on its way to `ethernetv2`. -/
structure HoldsArp (frame : EthernetFrame) (h : ArpHeader) : Prop where
  proto : frame.proto = Netns.arpPROTO
  dev : frame.dev ≠ none
  room : EthernetHeader.size ≤ frame.skb.headroom
  bytes : ∃ padding, frame.skb.payload = h.produceToNet ++ padding

end EthernetFrame

/-- The message is not one that `icmp` answers. -/
def Icmp.Unanswered (data : List Byte) : Prop :=
  ∃ h rest, IcmpHeader.consumeFromNet data = some (h, rest) ∧ h.protoType ≠ 0x08

/-- A frame that holds a datagram, on its way to `ethernetv2`. -/
structure EthernetFrame.HoldsDatagram (frame : EthernetFrame) : Prop where
  proto : frame.proto = Ipv4.PROTO
  dev : frame.dev ≠ none
  room : EthernetHeader.size ≤ frame.skb.headroom
  bytes : ∃ (ip : Ipv4Header) (data : List Byte), frame.skb.payload = ip.produceToNet ++ data ∧
    ip.version = 4 ∧ (ip.protoType = Icmp.PROTO → Icmp.Unanswered data)

/-- A packet on its way to `ipv4`, with the room that the headers below need. -/
structure Ipv4Packet.Sendable (pkt : Ipv4Packet) : Prop where
  room : pkt.skb.headroom = TcpPacket.additionalRoom
  back : pkt.skb.back = []
  unanswered : pkt.proto = Icmp.PROTO → Icmp.Unanswered pkt.skb.payload

/-- A packet that a connection hands to `tcb_manager`. -/
def RawTcpPacket.IsSegment (pkt : RawTcpPacket) : Prop :=
  ∃ junk seg, TcpPacket.serialize junk seg = .ok pkt ∧ seg.proto = 0x06

/-- `ethernetv2::process` takes every frame that has a device and room. -/
theorem Ethernetv2.process_onWire {frame : EthernetFrame} (hdev : frame.dev ≠ none)
    (hroom : EthernetHeader.size ≤ frame.skb.headroom) :
    ∃ out, process frame = .ok out ∧ out.1.payload = frame.onWire := by
  obtain ⟨dev, hdev⟩ := Option.ne_none_iff_exists'.mp hdev
  obtain ⟨front, mid, hskb, -, hmid⟩ := Skbuff.exists_room hroom
  exact ⟨_, process_eq hdev hskb hmid, rfl⟩

/-- A connection's segment becomes a packet for `ipv4`. -/
theorem RawTcpPacket.IsSegment.process {pkt : RawTcpPacket} (h : pkt.IsSegment) :
    ∃ ip, Tcp.process pkt = .ok ip ∧ ip.Sendable ∧ ip.dstAddrv4 = pkt.remoteEp.addrv4 := by
  obtain ⟨junk, seg, hser, hproto⟩ := h
  obtain ⟨raw, ip, -, -, -, hser', hip, -, -, ⟨hproto', -, hdst⟩, -⟩ := seg.layers_eq junk 0
  obtain rfl : raw = pkt := Except.ok.inj (hser'.symm.trans hser)
  obtain ⟨ip', front, payload, hip', hdst', hskb, hfront⟩ := Netns.process_of_serialize hser
  obtain rfl : ip = ip' := Except.ok.inj (hip.symm.trans hip')
  refine ⟨ip, hip, ⟨?_, ?_, fun hicmp => ?_⟩, hdst'⟩
  · rw [hskb]
    exact hfront
  · rw [hskb]
  · rw [hproto', hproto] at hicmp
    exact absurd hicmp (by decide)

/-- `ipv4::process` puts its header in front of such a packet. -/
theorem Ipv4Packet.Sendable.skbOut {pkt : Ipv4Packet} (h : pkt.Sendable) (seq : BitVec 16) :
    ∃ skb, Ipv4.skbOut seq pkt = .ok skb ∧ ∀ srcMac dstMac dev,
      (⟨srcMac, dstMac, Ipv4.PROTO, skb, some dev⟩ : EthernetFrame).HoldsDatagram := by
  have hskb : pkt.skb = ⟨pkt.skb.front, pkt.skb.payload, []⟩ := by rw [← h.back]
  obtain ⟨front, ip, hfront, ⟨chsum, hip⟩, hout⟩ := Ipv4.skbOut_sealed seq hskb h.room
  refine ⟨_, hout, fun srcMac dstMac dev =>
    ⟨rfl, Option.some_ne_none _, hfront.ge, ip, pkt.skb.payload, rfl, ?_⟩⟩
  rw [hip]
  exact ⟨rfl, h.unanswered⟩

namespace Netns

/-- `arp::async_request` enqueues a frame with its request. -/
theorem asyncRequest_eq (s : Netns) (junk : ℕ → Byte) (fromMac : MacAddr)
    (fromAddr toAddr : Ipv4Addr) (dev : DeviceId) :
    ∃ out : EthernetFrame, s.asyncRequest junk fromMac fromAddr toAddr dev = .ok (s.arpEnqueue out) ∧
      out.HoldsArp (.request fromMac fromAddr toAddr) := by
  obtain ⟨skb, hskb⟩ : ∃ skb, skb = Skbuff.alloc junk (EthernetHeader.size + ArpHeader.size)
    EthernetHeader.size := ⟨_, rfl⟩
  have hlen : skb.payload.length =
      (ArpHeader.request fromMac fromAddr toAddr).produceToNet.length := by
    rw [hskb, Skbuff.length_payload_alloc, ArpHeader.length_produceToNet]
    omega
  have hroom : EthernetHeader.size ≤ skb.headroom := by rw [hskb, Skbuff.headroom_alloc]
  have hwrite := Skbuff.write_zero hlen skb.front [] skb.back
  rw [List.append_nil, ArpHeader.request] at hwrite
  refine ⟨⟨fromMac, BitVec.allOnes 48, arpPROTO, ⟨skb.front,
    (ArpHeader.request fromMac fromAddr toAddr).produceToNet ++ [], skb.back⟩, some dev⟩, ?_,
    rfl, Option.some_ne_none _, hroom, [], rfl⟩
  simp only [asyncRequest]
  rw [← hskb, hwrite, ok_bind]
  rfl

/-- `arp::async_reply` enqueues a frame with its reply, in the buffer of the
request. -/
theorem asyncReply_eq {frame : EthernetFrame} {front mid padding : List Byte}
    (hskb : frame.skb = ⟨front ++ mid, padding, []⟩) (hmid : mid.length = ArpHeader.size)
    (hfront : EthernetHeader.size ≤ front.length) (hdev : frame.dev ≠ none) (s : Netns)
    (fromMac : MacAddr) (fromAddr : Ipv4Addr) (toMac : MacAddr) (toAddr : Ipv4Addr) :
    ∃ out : EthernetFrame, s.asyncReply fromMac fromAddr toMac toAddr frame
      = .ok (s.arpEnqueue out) ∧ out.HoldsArp (.reply fromMac fromAddr toMac toAddr) := by
  have hlen : mid.length = (ArpHeader.reply fromMac fromAddr toMac toAddr).produceToNet.length := by
    rw [hmid, ArpHeader.length_produceToNet]
  have hwrite := Skbuff.write_zero hlen front padding []
  rw [ArpHeader.reply] at hwrite
  refine ⟨⟨fromMac, toMac, arpPROTO, ⟨front,
    (ArpHeader.reply fromMac fromAddr toMac toAddr).produceToNet ++ padding, []⟩, frame.dev⟩, ?_,
    rfl, hdev, hfront, padding, rfl⟩
  simp only [asyncReply]
  rw [hskb, Skbuff.pushFront_mk hmid, ok_bind, hwrite, ok_bind]
  rfl

/-! ## What a received frame does

Two fields of the Ethernet header and of the ARP packet decide. -/

/-- **`dispatch`**: the type of the frame decides who gets it.  IPv4, ARP, or
nobody; a type that nobody handles is not an error. -/
theorem receive_arrived {bs rest : List Byte} {eth : EthernetHeader}
    (hread : EthernetHeader.consumeFromNet (bs.take 1500) = some (eth, rest)) (s : Netns)
    (dev : DeviceId) : s.receive dev bs =
      if eth.proto = arpPROTO then s.arpProcess (arrived dev eth rest)
      else if eth.proto = Ipv4.PROTO then s.ipv4Receive (arrived dev eth rest)
      else .ok s := by
  rw [receive, Ethernetv2.makePacket_received hread, ok_bind]
  rfl

/-- A frame that holds an ARP packet: its bytes. -/
theorem exists_of_arpOf {bs : List Byte} {inArp : ArpHeader} (harp : arpOf bs = some inArp) :
    ∃ eth padding, EthernetHeader.consumeFromNet (bs.take 1500)
      = some (eth, inArp.produceToNet ++ padding) ∧ eth.proto = arpPROTO := by
  obtain ⟨⟨eth, rest⟩, hread, harp⟩ := Option.bind_eq_some_iff.mp harp
  dsimp only at harp
  split at harp
  · rename_i hproto
    obtain ⟨⟨h, padding⟩, hread', rfl⟩ := Option.map_eq_some_iff.mp harp
    have hbytes := ArpHeader.inverse.eq_write ArpHeader.fixed_consumeFromNet hread'
    exact ⟨eth, padding, hbytes ▸ hread, hproto⟩
  · cases harp

section Arp

variable {bs : List Byte} {inArp : ArpHeader}

/-- **A request**: the sender is entered, and the target is answered for if it
is in the cache.  The host does not ask whether the target is its own address:
it answers for every address it knows. -/
theorem receive_request (harp : arpOf bs = some inArp) (hrequest : inArp.IsRequest) (s : Netns)
    (dev : DeviceId) :
    ((s.arpUpdate inArp.sha inArp.spa).neighs inArp.tpa = none ∧
        s.receive dev bs = .ok (s.arpUpdate inArp.sha inArp.spa)) ∨
      ∃ tha out, (s.arpUpdate inArp.sha inArp.spa).neighs inArp.tpa = some tha ∧
        out.HoldsArp (.reply tha inArp.tpa inArp.sha inArp.spa) ∧
        s.receive dev bs = .ok ((s.arpUpdate inArp.sha inArp.spa).arpEnqueue out) := by
  obtain ⟨eth, padding, hread, hproto⟩ := exists_of_arpOf harp
  have hmid := inArp.length_produceToNet
  have hframe : s.receive dev bs = s.processRequest inArp
      { arrived dev eth (inArp.produceToNet ++ padding) with
        skb := ⟨eth.produceToNet ++ inArp.produceToNet, padding, []⟩ } := by
    rw [receive_arrived hread, if_pos hproto, arpProcess]
    rw [consume_eq (inArp.consume_produce padding), ok_bind,
      show (arrived dev eth (inArp.produceToNet ++ padding)).skb
        = ⟨eth.produceToNet, inArp.produceToNet ++ padding, []⟩ from rfl,
      Skbuff.popFront_mk (by rw [hmid]), ok_bind, if_pos ⟨hrequest.1.symm, hrequest.2.1.symm⟩,
      if_pos hrequest.2.2]
  rw [hframe, processRequest]
  dsimp only
  cases hquery : (s.arpUpdate inArp.sha inArp.spa).neighs inArp.tpa with
  | none =>
      rw [NeighCache.query, hquery]
      exact .inl ⟨rfl, rfl⟩
  | some tha =>
      rw [NeighCache.query, hquery]
      obtain ⟨out, hout, hholds⟩ := asyncReply_eq
        (show (⟨eth.srcMacAddr, eth.dstMacAddr, eth.proto,
          ⟨eth.produceToNet ++ inArp.produceToNet, padding, []⟩, some dev⟩ : EthernetFrame).skb
          = ⟨_ ++ _, _, []⟩ from rfl) hmid eth.length_produceToNet.ge (Option.some_ne_none _)
        (s.arpUpdate inArp.sha inArp.spa) tha inArp.tpa inArp.sha inArp.spa
      exact .inr ⟨tha, out, rfl, hholds, hout⟩

/-- **A reply** goes to `process_reply`. -/
theorem receive_reply (harp : arpOf bs = some inArp) (hreply : inArp.IsReply) (s : Netns)
    (dev : DeviceId) : s.receive dev bs = s.processReply inArp := by
  obtain ⟨eth, padding, hread, hproto⟩ := exists_of_arpOf harp
  rw [receive_arrived hread, if_pos hproto]
  exact s.arpProcess_reply (inArp.consume_produce padding) hreply.1 hreply.2.1 hreply.2.2

/-- Any other ARP packet is ignored. -/
theorem receive_neither (harp : arpOf bs = some inArp) (hrequest : ¬ inArp.IsRequest)
    (hreply : ¬ inArp.IsReply) (s : Netns) (dev : DeviceId) : s.receive dev bs = .ok s := by
  obtain ⟨eth, padding, hread, hproto⟩ := exists_of_arpOf harp
  rw [receive_arrived hread, if_pos hproto]
  exact s.arpProcess_other (inArp.consume_produce padding) hrequest hreply

end Arp

end Netns

/-- `icmp::process` answers an echo request, and nothing else. -/
theorem Icmp.process_read {pkt : Ipv4Packet} {h : IcmpHeader} {data : List Byte}
    (hread : IcmpHeader.consumeFromNet pkt.skb.payload = some (h, data))
    (hroom : pkt.skb.headroom = TcpPacket.additionalRoom) (hback : pkt.skb.back = []) :
    (h.protoType = 0x08 ∧ ∃ reply, process pkt = .ok (some reply) ∧ reply.Sendable) ∨
      (h.protoType ≠ 0x08 ∧ process pkt = .ok none) := by
  obtain ⟨hsize, hdata⟩ := IcmpHeader.fixed_consumeFromNet.of_eq_some hread
  have hmid : (pkt.skb.payload.take IcmpHeader.size).length = IcmpHeader.size :=
    List.length_take_of_le hsize
  by_cases hecho : h.protoType = 0x08
  · have heven : Even pkt.skb.front.length := by
      rw [show pkt.skb.front.length = _ from hroom]
      decide
    have hreply := asyncReply_eq h
      (show ({ pkt with skb := ⟨pkt.skb.front ++ pkt.skb.payload.take IcmpHeader.size, data,
        pkt.skb.back⟩ } : Ipv4Packet).skb = ⟨_, _, _⟩ from rfl) heven hmid
    set chsum := chsumOf ([0, 0] ++ ([0, 0] ++ (put h.id ++ put h.seq ++ data)))
    refine .inl ⟨hecho, ⟨pkt.dstAddrv4, pkt.srcAddrv4, pkt.proto, ⟨pkt.skb.front,
      [0, 0] ++ (native16 chsum ++ (put h.id ++ put h.seq ++ data)), pkt.skb.back⟩⟩, ?_, hroom,
      hback, fun _ => ⟨⟨0, 0, byteswap chsum, h.id, h.seq⟩, data, ?_, ?_⟩⟩
    · simp only [process, if_neg (Nat.not_lt.mpr hsize)]
      rw [consume_eq hread, ok_bind, Skbuff.popFront_of_le hsize, ok_bind, if_pos hecho, ← hdata,
        hreply]
      rfl
    · have hbytes : [0, 0] ++ (native16 chsum ++ (put h.id ++ put h.seq ++ data))
          = (⟨0, 0, byteswap chsum, h.id, h.seq⟩ : IcmpHeader).produceToNet ++ data := by
        rw [native16_eq_put, IcmpHeader.produceToNet_eq, IcmpHeader.beforeChsum_reply]
      show IcmpHeader.consumeFromNet ([0, 0] ++ (native16 chsum ++ _)) = _
      rw [hbytes, IcmpHeader.consume_produce]
    · show (0 : BitVec 8) ≠ 0x08
      decide
  · refine .inr ⟨hecho, ?_⟩
    simp only [process, if_neg (Nat.not_lt.mpr hsize)]
    rw [consume_eq hread, ok_bind, Skbuff.popFront_of_le hsize, ok_bind, if_neg hecho]
    rfl

namespace Netns

/-- **A datagram**: an echo request is answered, and nothing else. -/
theorem ipv4Receive_read {eth : EthernetHeader} {rest data : List Byte} {ip : Ipv4Header}
    (hread : Ipv4Header.consumeFromNet rest = some (ip, data)) (s : Netns) (dev : DeviceId) :
    s.ipv4Receive (arrived dev eth rest) =
      if ip.version = 4 ∧ ip.protoType = Icmp.PROTO then
        s.step (.icmpProcess ⟨ip.srcAddr, ip.dstAddr, ip.protoType,
          ⟨eth.produceToNet ++ ip.produceToNet, data, []⟩⟩)
      else .ok s := by
  rw [ipv4Receive, Ipv4.makePacket_arrived hread, ok_bind]
  by_cases hversion : ip.version = 4
  · simp only [hversion, if_true, true_and]
    rfl
  · simp only [hversion, if_false, false_and]
    rfl

/-- A message for `icmp`: an echo request is answered, and nothing else. -/
theorem step_icmpProcess {data rest : List Byte} {h : IcmpHeader}
    (hread : IcmpHeader.consumeFromNet data = some (h, rest)) (eth : EthernetHeader)
    (ip : Ipv4Header) (s : Netns) :
    (h.protoType ≠ 0x08 ∧ s.step (.icmpProcess ⟨ip.srcAddr, ip.dstAddr, ip.protoType,
        ⟨eth.produceToNet ++ ip.produceToNet, data, []⟩⟩) = .ok s) ∨
      (h.protoType = 0x08 ∧ ∃ reply : Ipv4Packet, reply.Sendable ∧
        s.step (.icmpProcess ⟨ip.srcAddr, ip.dstAddr, ip.protoType,
          ⟨eth.produceToNet ++ ip.produceToNet, data, []⟩⟩) = .ok (s.icmpEnqueue reply)) := by
  have hroom : (eth.produceToNet ++ ip.produceToNet).length = TcpPacket.additionalRoom := by
    rw [List.length_append, EthernetHeader.length_produceToNet, Ipv4Header.length_produceToNet]
    rfl
  have hread' : IcmpHeader.consumeFromNet (⟨ip.srcAddr, ip.dstAddr, ip.protoType,
      ⟨eth.produceToNet ++ ip.produceToNet, data, []⟩⟩ : Ipv4Packet).skb.payload
    = some (h, rest) := hread
  rcases Icmp.process_read hread' hroom rfl with
    ⟨hecho, reply, hprocess, hsendable⟩ | ⟨hother, hprocess⟩
  · refine .inr ⟨hecho, reply, hsendable, ?_⟩
    rw [step, hprocess]
    rfl
  · refine .inl ⟨hother, ?_⟩
    rw [step, hprocess]
    rfl

/-- **A frame without an ARP packet**: a host keeps its state, but for a reply
to an echo request. -/
theorem receive_other {bs : List Byte} (harp : arpOf bs = none) (hreadable : Readable bs)
    (s : Netns) (dev : DeviceId) :
    s.receive dev bs = .ok s ∨
      ∃ reply : Ipv4Packet, reply.Sendable ∧ s.receive dev bs = .ok (s.icmpEnqueue reply) := by
  obtain ⟨eth, rest, hread, hlong, hip⟩ := hreadable
  have hno : eth.proto ≠ arpPROTO := by
    intro hproto
    obtain ⟨inArp, hinArp⟩ := ArpHeader.fixed_consumeFromNet.exists_of_le (hlong hproto)
    rw [arpOf, hread, Option.bind_eq_bind, Option.bind_some] at harp
    dsimp only at harp
    rw [if_pos hproto, hinArp] at harp
    cases harp
  rw [receive_arrived hread, if_neg hno]
  by_cases hproto : eth.proto = Ipv4.PROTO
  · rw [if_pos hproto]
    obtain ⟨ip, data, hread', hsize⟩ := hip hproto
    rw [ipv4Receive_read hread']
    by_cases hicmp : ip.version = 4 ∧ ip.protoType = Icmp.PROTO
    · rw [if_pos hicmp]
      obtain ⟨h, hh⟩ := IcmpHeader.fixed_consumeFromNet.exists_of_le (hsize hicmp.1 hicmp.2)
      exact (step_icmpProcess hh eth ip s).imp And.right And.right
    · exact .inl (if_neg hicmp)
  · exact .inl (if_neg hproto)

/-! ## What hosts say to each other

The frames of one host, read by another. -/

/-- The bytes that a device reads of a frame begin with the same header. -/
theorem consume_onWire (frame : EthernetFrame) :
    EthernetHeader.consumeFromNet (frame.onWire.take 1500)
      = some (Ethernetv2.ePacket frame, frame.skb.payload.take (1500 - EthernetHeader.size)) := by
  have hlen := (Ethernetv2.ePacket frame).length_produceToNet
  have hcut : frame.onWire.take 1500 = (Ethernetv2.ePacket frame).produceToNet ++
      frame.skb.payload.take (1500 - EthernetHeader.size) := by
    rw [EthernetFrame.onWire, List.take_append, hlen, List.take_of_length_le (by rw [hlen]; decide)]
  rw [hcut]
  exact EthernetHeader.consume_produce _ _

/-- An ARP packet is read as what was written. -/
theorem arpOf_onWire {frame : EthernetFrame} {h : ArpHeader} (hholds : frame.HoldsArp h) :
    arpOf frame.onWire = some h := by
  obtain ⟨padding, hbytes⟩ := hholds.bytes
  have hcut : frame.skb.payload.take (1500 - EthernetHeader.size)
      = h.produceToNet ++ padding.take (1500 - EthernetHeader.size - ArpHeader.size) := by
    rw [hbytes, List.take_append, h.length_produceToNet,
      List.take_of_length_le (by rw [h.length_produceToNet]; decide)]
  rw [arpOf, consume_onWire, Option.bind_eq_bind, Option.bind_some]
  dsimp only
  rw [if_pos (show (Ethernetv2.ePacket frame).proto = arpPROTO from hholds.proto), hcut,
    ArpHeader.consume_produce]
  rfl

/-- A datagram of a host is no ARP packet, and no host answers it. -/
theorem receive_datagram {frame : EthernetFrame} (hholds : frame.HoldsDatagram) :
    arpOf frame.onWire = none ∧ ∀ s dev, receive s dev frame.onWire = .ok s := by
  have hread := consume_onWire frame
  have hproto : (Ethernetv2.ePacket frame).proto = Ipv4.PROTO := hholds.proto
  have hno : ¬ (Ethernetv2.ePacket frame).proto = arpPROTO := by
    rw [hproto]
    decide
  obtain ⟨ip, data, hbytes, hversion, hunanswered⟩ := hholds.bytes
  have hcut : frame.skb.payload.take (1500 - EthernetHeader.size)
      = ip.produceToNet ++ data.take (1500 - EthernetHeader.size - Ipv4Header.fixedSize) := by
    rw [hbytes, List.take_append, ip.length_produceToNet,
      List.take_of_length_le (by rw [ip.length_produceToNet]; decide)]
  rw [hcut] at hread
  refine ⟨?_, fun s dev => ?_⟩
  · rw [arpOf, hread, Option.bind_eq_bind, Option.bind_some]
    exact if_neg hno
  · rw [receive_arrived hread, if_neg hno, if_pos hproto, ipv4Receive_read (ip.consume_produce _)]
    by_cases hicmp : ip.version = 4 ∧ ip.protoType = Icmp.PROTO
    · rw [if_pos hicmp]
      obtain ⟨h, rest, hh, htype⟩ := hunanswered hicmp.2
      have hhead := IcmpHeader.inverse.eq_write IcmpHeader.fixed_consumeFromNet hh
      have hread' : IcmpHeader.consumeFromNet
          (data.take (1500 - EthernetHeader.size - Ipv4Header.fixedSize)) = some (h, rest.take
            (1500 - EthernetHeader.size - Ipv4Header.fixedSize - IcmpHeader.size)) := by
        rw [hhead, List.take_append, h.length_produceToNet,
          List.take_of_length_le (by rw [h.length_produceToNet]; decide)]
        exact h.consume_produce _
      rcases step_icmpProcess hread' (Ethernetv2.ePacket frame) ip s with
        ⟨-, hstep⟩ | ⟨hecho, -⟩
      · exact hstep
      · exact absurd hecho htype
    · exact if_neg hicmp

/-! ## What a network can do wrong

For any bytes at all. -/

/-- A header that was read was there. -/
theorem consume_eq_ok {α : Type} {reader : BigEndian.Reader α} {skb : Skbuff} {a : α}
    (h : consume reader skb = .ok a) : ∃ rest, reader skb.payload = some (a, rest) := by
  unfold consume at h
  split at h
  · cases h
  · rename_i a' rest hread
    obtain rfl := Except.ok.inj h
    exact ⟨rest, hread⟩

/-- A frame that was taken was long enough. -/
theorem readable_of_receive {s s' : Netns} {dev : DeviceId} {bs : List Byte}
    (h : s.receive dev bs = .ok s') : Readable bs := by
  obtain ⟨frame, hframe, -⟩ := bind_eq_ok.mp h
  obtain ⟨eth, heth, -⟩ := bind_eq_ok.mp hframe
  obtain ⟨rest, hread⟩ := consume_eq_ok heth
  change EthernetHeader.consumeFromNet (bs.take 1500) = _ at hread
  rw [receive_arrived hread] at h
  refine ⟨eth, rest, hread, fun hproto => ?_, fun hproto => ?_⟩
  · rw [if_pos hproto] at h
    obtain ⟨inArp, padding, hinArp⟩ := carries_of_arpProcess h
    exact (ArpHeader.fixed_consumeFromNet.of_eq_some hinArp).1
  · have hno : eth.proto ≠ arpPROTO := by
      rw [hproto]
      decide
    rw [if_neg hno, if_pos hproto] at h
    have hlong : Ipv4Header.fixedSize ≤ rest.length := by
      by_contra hshort
      obtain ⟨o, ho, -⟩ := bind_eq_ok.mp h
      rw [Ipv4.makePacket, if_pos (show (arrived dev eth rest).skb.payload.length <
        Ipv4Header.fixedSize from Nat.lt_of_not_le hshort)] at ho
      cases ho
    obtain ⟨ip, hip⟩ := Ipv4Header.fixed_consumeFromNet.exists_of_le hlong
    refine ⟨ip, _, hip, fun hversion hicmp => ?_⟩
    rw [ipv4Receive_read hip, if_pos ⟨hversion, hicmp⟩] at h
    by_contra hshort
    obtain ⟨o, ho, -⟩ := bind_eq_ok.mp h
    rw [Icmp.process, if_pos (Nat.lt_of_not_le hshort)] at ho
    cases ho

/-- **All that a network can do wrong**: a host takes a frame, whatever is in
it, if and only if it is long enough for the headers that its types announce.
(What a segment does to its connection is not counted here.) -/
theorem receive_total_iff {s : Netns} (h : s.ledger.Accounts []) (dev : DeviceId)
    (bs : List Byte) : (∃ s', s.receive dev bs = .ok s') ↔ Readable bs := by
  refine ⟨fun ⟨s', hs'⟩ => readable_of_receive hs', fun hreadable => ?_⟩
  cases harp : arpOf bs with
  | none =>
      rcases receive_other harp hreadable s dev with hsame | ⟨reply, -, hreply⟩
      · exact ⟨s, hsame⟩
      · exact ⟨_, hreply⟩
  | some inArp =>
      by_cases hrequest : inArp.IsRequest
      · rcases receive_request harp hrequest s dev with ⟨-, hsame⟩ | ⟨tha, out, -, -, hout⟩
        · exact ⟨_, hsame⟩
        · exact ⟨_, hout⟩
      · by_cases hreply : inArp.IsReply
        · obtain ⟨s', outs, hs', -⟩ := processReply_releases h inArp
          exact ⟨s', (receive_reply harp hreply s dev).trans hs'⟩
        · exact ⟨s, receive_neither harp hrequest hreply s dev⟩

end Netns

end Mstack
