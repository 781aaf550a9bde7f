import Mstack.Net.Checksum
import Mstack.Net.Headers
import Mstack.Tcp.Tcb

/-!
# What each layer does to a packet

The packet types, and the part of every protocol layer that works on one
packet: writing its header in front of the payload on the way down (`process`),
reading and dropping it on the way up (`make_packet`).  Queues, routing and
address resolution are in `Net.Netns`, the flow table of `tcp` is in
`Net.RawFlow`.

### One buffer

All layers work in one buffer.  `tcb_t` leaves room in front of the TCP header
for the headers of IPv4 and Ethernet; `tcp::process` uses part of that room for
the pseudo header while it computes the checksum.  A layer knows where its
header belongs from the head of the buffer alone, and asserts that there is
room.

### Translation

* A function that enqueues returns the packet it enqueues; `std::nullopt` is
  `none`.
* A header is read with `consume`.  The source reads without comparing lengths,
  so that a packet which is too short is read past its end: `outOfBounds`.
* `hlen` is an `int` and `optlen` a `size_t` in `tcb_t::process`, and `parse`
  computes with a bit vector where the two meet.
* `junk` is what a fresh allocation holds; `std::make_unique_for_overwrite`
  does not write it.

### Closed forms

The second half has each function once more, on a buffer that has the room it
asserts: which bytes end up where.  Every proof about a packet, down or up,
uses these and does not unfold a layer again.
-/

namespace Mstack

open BigEndian

/-- A `std::shared_ptr<device>`, by the device it points to.  What a device
does with its frames is in `Net.Device`. -/
abbrev DeviceId := ℕ

/-- `tcp_packet`, with its buffer as bytes. -/
structure RawTcpPacket where
  proto : BitVec 8
  remoteEp : Endpoint
  localEp : Endpoint
  skb : Skbuff
  deriving DecidableEq, Repr

/-- `ipv4_packet`. -/
structure Ipv4Packet where
  srcAddrv4 : Ipv4Addr
  dstAddrv4 : Ipv4Addr
  proto : BitVec 8
  skb : Skbuff
  deriving DecidableEq, Repr

/-- `ethernetv2_frame`. -/
structure EthernetFrame where
  srcMacAddr : MacAddr
  dstMacAddr : MacAddr
  proto : BitVec 16
  skb : Skbuff
  dev : Option DeviceId
  deriving DecidableEq, Repr

/-- The result of a header reader, for a source that does not check the length
first. -/
def consume {α : Type} (reader : BigEndian.Reader α) (skb : Skbuff) : Except NetFault α :=
  match reader skb.payload with
  | none => .error .outOfBounds
  | some (a, _) => .ok a

/-! ## `tcb_t`

Where the segments of `Tcp.Tcb` become bytes, and bytes become segments. -/

namespace TcpPacket

/-- `additional_room`, in `make_packet` and `start_connecting`: room in front
of the segment for the two headers that the layers below will write there. -/
def additionalRoom : ℕ := EthernetHeader.size + Ipv4Header.fixedSize

/-- The buffer that `make_packet` and `start_connecting` fill: the header at
`head()`, options and text behind it. -/
def serialize (junk : ℕ → Byte) (pkt : TcpPacket) : Except NetFault RawTcpPacket := do
  let body := pkt.skb.opts ++ pkt.skb.text
  let room := additionalRoom + TcpHeader.fixedSize + body.length
  let skb := Skbuff.alloc junk room additionalRoom
  let skb ← skb.write 0 pkt.skb.tcph.produceToNet
  let skb ← skb.write TcpHeader.fixedSize body
  return { proto := pkt.proto, remoteEp := pkt.remoteEp, localEp := pkt.localEp, skb }

end TcpPacket

/-- The first statements of `tcb_t::process`: header, options and text.  `hlen`
is an `int` and `optlen` a `size_t`, so that a data offset below five makes
`optlen` wrap. -/
def RawTcpPacket.parse (pkt : RawTcpPacket) : Except NetFault TcpPacket := do
  if pkt.skb.payload.length < TcpHeader.fixedSize then .error .shortPayload
  else
    let tcph ← consume TcpHeader.consumeFromNet pkt.skb
    let hlen : ℕ := tcph.dataOffset.toNat <<< 2
    let optlen : BitVec 64 := BitVec.ofNat 64 hlen - BitVec.ofNat 64 TcpHeader.fixedSize
    let skb ← pkt.skb.popFront (BitVec.ofNat 64 hlen - optlen).toInt
    let opts := skb.payload.take optlen.toNat
    let skb ← skb.popFront optlen.toInt
    return {
      proto := pkt.proto
      remoteEp := pkt.remoteEp
      localEp := pkt.localEp
      skb := { tcph, opts, text := skb.payload } }

/-! ## `tcp`

The checksum covers a pseudo header, which is written in front of the segment
and left there. -/

namespace Tcp

/-- `tcp_ph_net`: the pseudo header of a packet, in network order.  The length
is cast to sixteen bits. -/
def pseudoHeader (pkt : RawTcpPacket) : List Byte :=
  put pkt.localEp.addrv4 ++ put pkt.remoteEp.addrv4 ++ put (0 : BitVec 8) ++ put pkt.proto ++
    put (BitVec.ofNat 16 pkt.skb.payload.length)

/-- `tcp::process_raw`: the packet it enqueues. -/
def processRaw (pkt : RawTcpPacket) : Ipv4Packet where
  srcAddrv4 := pkt.localEp.addrv4
  dstAddrv4 := pkt.remoteEp.addrv4
  proto := pkt.proto
  skb := pkt.skb

/-- `tcp::process`: the packet it enqueues. -/
def process (pkt : RawTcpPacket) : Except NetFault Ipv4Packet := do
  if pkt.skb.payload.length < TcpHeader.fixedSize then .error .shortPayload
  else
    let skb ← pkt.skb.write 16 [0, 0]
    if skb.headroom < 12 then .error .headroom
    else
      let skb ← skb.pushFront 12
      let skb ← skb.write 0 (pseudoHeader pkt)
      let chsumNet ← checksum skb.headroom skb.payload
      let skb ← skb.popFront 12
      let skb ← skb.write 16 (native16 chsumNet)
      return processRaw { pkt with skb }

/-- The packet `tcp::make_packet` builds before it looks at its tables.  The
sender of the datagram is the remote endpoint. -/
def tcpPkt (pkt : Ipv4Packet) : Except NetFault RawTcpPacket := do
  let tcph ← consume TcpHeader.consumeFromNet pkt.skb
  return {
    proto := 0x06
    remoteEp := { addrv4 := pkt.srcAddrv4, addrv4Port := tcph.srcPort }
    localEp := { addrv4 := pkt.dstAddrv4, addrv4Port := tcph.dstPort }
    skb := pkt.skb }

end Tcp

/-! ## `icmp`

An echo request is answered in the buffer it came in. -/

namespace Icmp

/-- `icmp::async_reply`: the packet it enqueues. -/
def asyncReply (inIcmpH : IcmpHeader) (pkt : Ipv4Packet) : Except NetFault Ipv4Packet := do
  let outIcmpHeader : IcmpHeader :=
    { protoType := 0, code := 0, chsum := 0, id := inIcmpH.id, seq := inIcmpH.seq }
  if pkt.skb.headroom < IcmpHeader.size then .error .headroom
  else
    let skb ← pkt.skb.pushFront IcmpHeader.size
    let skb ← skb.write 0 outIcmpHeader.produceToNet
    let chsumNet ← checksum skb.headroom skb.payload
    let skb ← skb.write 2 (native16 chsumNet)
    return {
      srcAddrv4 := pkt.dstAddrv4
      dstAddrv4 := pkt.srcAddrv4
      proto := pkt.proto
      skb }

/-- `icmp::process`: the reply it enqueues, if any. -/
def process (pkt : Ipv4Packet) : Except NetFault (Option Ipv4Packet) := do
  if pkt.skb.payload.length < IcmpHeader.size then .error .shortPayload
  else
    let inIcmpH ← consume IcmpHeader.consumeFromNet pkt.skb
    let skb ← pkt.skb.popFront IcmpHeader.size
    if inIcmpH.protoType = 0x08 then return some (← asyncReply inIcmpH { pkt with skb })
    else return none

end Icmp

/-! ## `ipv4`

`make_packet` looks at the version before it reads the header, and drops
anything but four. -/

namespace Ipv4

/-- `ipv4::PROTO`. -/
def PROTO : BitVec 16 := 0x0800

/-- The header `ipv4::process` writes; `seq` is the value of `seq_++`.  No
options, no fragments, and a checksum field of zero, which is filled in
afterwards. -/
def ipv4h (seq : BitVec 16) (pkt : Ipv4Packet) : Ipv4Header where
  version := 0x4
  headerLength := 0x5
  tos := 0
  totalLength := BitVec.ofNat 16 (pkt.skb.payload.length + Ipv4Header.fixedSize)
  id := seq
  NOP := false
  DF := true
  MF := false
  fragOffset := 0
  ttl := 0x40
  protoType := pkt.proto
  headerChsum := 0
  srcAddr := pkt.srcAddrv4
  dstAddr := pkt.dstAddrv4

/-- The first half of `ipv4::process`: the buffer with its IPv4 header.  The
second half looks for the next hop and is in `Net.Netns`. -/
def skbOut (seq : BitVec 16) (pkt : Ipv4Packet) : Except NetFault Skbuff := do
  if pkt.skb.headroom < Ipv4Header.fixedSize then .error .headroom
  else
    let skb ← pkt.skb.pushFront Ipv4Header.fixedSize
    let skb ← skb.write 0 (ipv4h seq pkt).produceToNet
    let headerChsumNet ← checksum skb.headroom (skb.payload.take Ipv4Header.fixedSize)
    skb.write 10 (native16 headerChsumNet)

/-- `ipv4::make_packet`. -/
def makePacket (frame : EthernetFrame) : Except NetFault (Option Ipv4Packet) := do
  if frame.skb.payload.length < Ipv4Header.fixedSize then .error .shortPayload
  else
    let fb : Byte := frame.skb.payload.headD 0
    if (fb >>> 4) &&& 0xf ≠ 0x4 then return none
    else
      let ipv4Header ← consume Ipv4Header.consumeFromNet frame.skb
      let skb ← frame.skb.popFront Ipv4Header.fixedSize
      return some {
        srcAddrv4 := ipv4Header.srcAddr
        dstAddrv4 := ipv4Header.dstAddr
        proto := ipv4Header.protoType
        skb }

end Ipv4

/-! ## `ethernetv2` and `device`

The frame carries its device down, and gets it on the way up. -/

namespace Ethernetv2

/-- The header `ethernetv2::process` writes.  The two addresses have been
filled in by `ipv4` or by `arp`. -/
def ePacket (frame : EthernetFrame) : EthernetHeader where
  dstMacAddr := frame.dstMacAddr
  srcMacAddr := frame.srcMacAddr
  proto := frame.proto

/-- `ethernetv2::process`: the buffer it enqueues, and the device. -/
def process (frame : EthernetFrame) : Except NetFault (Skbuff × DeviceId) := do
  match frame.dev with
  | none => .error .noDevice
  | some dev =>
      let skb ← frame.skb.pushFront EthernetHeader.size
      let skb ← skb.write 0 (ePacket frame).produceToNet
      return (skb, dev)

/-- `ethernetv2::make_packet`; it never returns `std::nullopt`. -/
def makePacket (skb : Skbuff) (dev : DeviceId) : Except NetFault EthernetFrame := do
  let eHeader ← consume EthernetHeader.consumeFromNet skb
  let skb ← skb.popFront EthernetHeader.size
  return {
    srcMacAddr := eHeader.srcMacAddr
    dstMacAddr := eHeader.dstMacAddr
    proto := eHeader.proto
    skb
    dev := some dev }

end Ethernetv2

/-- The buffer `device::async_receive` hands up when the descriptor delivers
the frame `bs`: a read of at most 1500 bytes. -/
def Device.received (bs : List Byte) : Skbuff where
  front := []
  payload := bs.take 1500
  back := []

/-! ## Closed forms

Each function once more, on a buffer that has the room it asserts: which bytes
end up where.  The regions of the buffer are spelled out, so that the forms
compose. -/

/-- A reader that succeeds is no fault. -/
theorem consume_eq {α : Type} {reader : BigEndian.Reader α} {skb : Skbuff} {a : α}
    {rest : List Byte} (h : reader skb.payload = some (a, rest)) : consume reader skb = .ok a := by
  rw [consume, h]

/-- A packet of `tcb_t`: the room for the lower headers, then header, options
and text. -/
theorem TcpPacket.serialize_eq (junk : ℕ → Byte) (pkt : TcpPacket) :
    ∃ front, front.length = TcpPacket.additionalRoom ∧ pkt.serialize junk = .ok
      { proto := pkt.proto, remoteEp := pkt.remoteEp, localEp := pkt.localEp,
        skb := ⟨front, pkt.skb.tcph.produceToNet ++ (pkt.skb.opts ++ pkt.skb.text), []⟩ } := by
  set body := pkt.skb.opts ++ pkt.skb.text with hbody
  set room := additionalRoom + TcpHeader.fixedSize + body.length with hroom
  obtain ⟨fresh, hfresh⟩ : ∃ fresh, fresh = (Skbuff.alloc junk room additionalRoom).payload :=
    ⟨_, rfl⟩
  have hlen : fresh.length = TcpHeader.fixedSize + body.length := by
    rw [hfresh, Skbuff.length_payload_alloc]
    omega
  have hcut : fresh = fresh.take TcpHeader.fixedSize ++ fresh.drop TcpHeader.fixedSize :=
    (List.take_append_drop _ _).symm
  refine ⟨(Skbuff.alloc junk room additionalRoom).front, Skbuff.headroom_alloc _ _ _, ?_⟩
  have hskb : Skbuff.alloc junk room additionalRoom = ⟨(Skbuff.alloc junk room additionalRoom).front,
      fresh.take TcpHeader.fixedSize ++ (fresh.drop TcpHeader.fixedSize ++ []), []⟩ := by
    rw [List.append_nil, ← hcut, hfresh]
    rfl
  have htake : (fresh.take TcpHeader.fixedSize).length = pkt.skb.tcph.produceToNet.length := by
    rw [List.length_take, hlen, TcpHeader.length_produceToNet]
    omega
  have hdrop : (fresh.drop TcpHeader.fixedSize).length = body.length := by
    rw [List.length_drop, hlen]
    omega
  simp only [serialize, ← hbody, ← hroom]
  rw [hskb, Skbuff.write_zero htake, EventSystem.ok_bind,
    Skbuff.write_mk (TcpHeader.length_produceToNet _) hdrop, EventSystem.ok_bind, List.append_nil]
  rfl

namespace Tcp

/-- Two addresses, a zero, the protocol and the length. -/
@[simp] theorem length_pseudoHeader (pkt : RawTcpPacket) : (pseudoHeader pkt).length = 12 := by
  simp [pseudoHeader]

/-- `tcp::process` changes the checksum field and leaves the pseudo header
behind, in the room in front of the segment. -/
theorem process_eq {pkt : RawTcpPacket} {front mid pre old post back : List Byte}
    (hskb : pkt.skb = ⟨front ++ mid, pre ++ (old ++ post), back⟩) (hfront : Even front.length)
    (hmid : mid.length = 12) (hpre : pre.length = 16) (hold : old.length = 2)
    (hpost : 2 ≤ post.length) :
    process pkt = .ok (processRaw { pkt with
      skb := ⟨front ++ pseudoHeader pkt,
        pre ++ (native16 (chsumOf (pseudoHeader pkt ++ (pre ++ ([0, 0] ++ post)))) ++ post),
        back⟩ }) := by
  have hshort : ¬ pkt.skb.payload.length < TcpHeader.fixedSize := by
    rw [hskb]
    simp only [List.length_append, TcpHeader.fixedSize]
    omega
  have hroom : ¬ (⟨front ++ mid, pre ++ ([0, 0] ++ post), back⟩ : Skbuff).headroom < 12 := by
    simp only [Skbuff.headroom, List.length_append]
    omega
  have heven : Even (⟨front, pseudoHeader pkt ++ (pre ++ ([0, 0] ++ post)), back⟩ :
      Skbuff).headroom := hfront
  simp only [process, if_neg hshort]
  rw [hskb, Skbuff.write_mk hpre (by simpa using hold), EventSystem.ok_bind, if_neg hroom,
    Skbuff.pushFront_mk hmid, EventSystem.ok_bind,
    Skbuff.write_zero (by rw [hmid, length_pseudoHeader]), EventSystem.ok_bind,
    checksum_even heven, EventSystem.ok_bind, Skbuff.popFront_mk (by simp), EventSystem.ok_bind,
    Skbuff.write_mk hpre (by simp [native16]), EventSystem.ok_bind]
  rfl

end Tcp

namespace Ipv4

/-- The header that leaves `ipv4::process`. -/
def sealedHeader (seq : BitVec 16) (pkt : Ipv4Packet) : List Byte :=
  (ipv4h seq pkt).beforeChsum ++ (native16 (chsumOf (ipv4h seq pkt).produceToNet) ++
    (put pkt.srcAddrv4 ++ put pkt.dstAddrv4))

/-- Sealing a header does not change its length. -/
@[simp] theorem length_sealedHeader (seq : BitVec 16) (pkt : Ipv4Packet) :
    (sealedHeader seq pkt).length = Ipv4Header.fixedSize := by
  simp [sealedHeader, native16, Ipv4Header.fixedSize]

/-- `ipv4::process` puts a header in front of the payload. -/
theorem skbOut_eq (seq : BitVec 16) {pkt : Ipv4Packet} {front mid payload back : List Byte}
    (hskb : pkt.skb = ⟨front ++ mid, payload, back⟩) (hfront : Even front.length)
    (hmid : mid.length = Ipv4Header.fixedSize) :
    skbOut seq pkt = .ok ⟨front, sealedHeader seq pkt ++ payload, back⟩ := by
  have hroom : ¬ pkt.skb.headroom < Ipv4Header.fixedSize := by
    rw [hskb]
    simp only [Skbuff.headroom, List.length_append]
    omega
  have htake : ((ipv4h seq pkt).produceToNet ++ payload).take Ipv4Header.fixedSize
      = (ipv4h seq pkt).produceToNet := by
    rw [← Ipv4Header.length_produceToNet (ipv4h seq pkt), List.take_left]
  have heven : Even (⟨front, (ipv4h seq pkt).produceToNet ++ payload, back⟩ :
      Skbuff).headroom := hfront
  simp only [skbOut, if_neg hroom]
  rw [hskb, Skbuff.pushFront_mk hmid, EventSystem.ok_bind,
    Skbuff.write_zero (by rw [hmid, Ipv4Header.length_produceToNet]), EventSystem.ok_bind,
    checksum_even heven, EventSystem.ok_bind, htake, Ipv4Header.produceToNet_eq,
    Skbuff.write_mk (Ipv4Header.length_beforeChsum _) (by simp [native16])]
  simp only [sealedHeader, List.append_assoc]
  rfl

end Ipv4

namespace Ethernetv2

theorem process_eq {frame : EthernetFrame} {dev : DeviceId} {front mid payload back : List Byte}
    (hdev : frame.dev = some dev) (hskb : frame.skb = ⟨front ++ mid, payload, back⟩)
    (hmid : mid.length = EthernetHeader.size) :
    process frame = .ok (⟨front, (ePacket frame).produceToNet ++ payload, back⟩, dev) := by
  simp only [process, hdev]
  rw [hskb, Skbuff.pushFront_mk hmid, EventSystem.ok_bind,
    Skbuff.write_zero (by rw [hmid, EthernetHeader.length_produceToNet]), EventSystem.ok_bind]
  rfl

theorem makePacket_eq {skb : Skbuff} {h : EthernetHeader} {front payload back : List Byte}
    (hskb : skb = ⟨front, h.produceToNet ++ payload, back⟩) (dev : DeviceId) :
    makePacket skb dev = .ok
      { srcMacAddr := h.srcMacAddr, dstMacAddr := h.dstMacAddr, proto := h.proto,
        skb := ⟨front ++ h.produceToNet, payload, back⟩, dev := some dev } := by
  subst hskb
  simp only [makePacket]
  rw [consume_eq (h.consume_produce payload), EventSystem.ok_bind, Skbuff.popFront_mk (by simp),
    EventSystem.ok_bind]
  rfl

end Ethernetv2

/-- `ipv4::make_packet` finds the payload behind the fixed header, whatever
`header_length` is. -/
theorem Ipv4.makePacket_eq {frame : EthernetFrame} {h : Ipv4Header}
    {front payload back : List Byte}
    (hskb : frame.skb = ⟨front, h.produceToNet ++ payload, back⟩) (hversion : h.version = 4) :
    Ipv4.makePacket frame = .ok (some
      { srcAddrv4 := h.srcAddr, dstAddrv4 := h.dstAddr, proto := h.protoType,
        skb := ⟨front ++ h.produceToNet, payload, back⟩ }) := by
  have hshort : ¬ (h.produceToNet ++ payload).length < Ipv4Header.fixedSize := by
    rw [List.length_append, Ipv4Header.length_produceToNet]
    omega
  have hfirst : ((h.produceToNet ++ payload).headD 0 >>> 4) &&& 0xf = 0x4 := by
    rw [Ipv4Header.headD_produceToNet, hversion]
    rfl
  have hread : Ipv4Header.consumeFromNet
      (⟨front, h.produceToNet ++ payload, back⟩ : Skbuff).payload = some (h, payload) :=
    h.consume_produce payload
  simp only [Ipv4.makePacket, hskb, if_neg hshort]
  rw [if_neg (not_not.mpr hfirst), consume_eq hread, EventSystem.ok_bind,
    Skbuff.popFront_mk (by simp), EventSystem.ok_bind]
  rfl

/-- `tcp::make_packet` reads the ports and leaves the header where it is. -/
theorem Tcp.tcpPkt_eq {pkt : Ipv4Packet} {h : TcpHeader} {front body back : List Byte}
    (hskb : pkt.skb = ⟨front, h.produceToNet ++ body, back⟩) :
    Tcp.tcpPkt pkt = .ok
      { proto := 0x06, remoteEp := ⟨pkt.srcAddrv4, h.srcPort⟩,
        localEp := ⟨pkt.dstAddrv4, h.dstPort⟩, skb := pkt.skb } := by
  have hread : TcpHeader.consumeFromNet pkt.skb.payload = some ({ h with reserved := 0 }, body) := by
    rw [hskb]
    exact h.consume_produce body
  rw [Tcp.tcpPkt, consume_eq hread, EventSystem.ok_bind]
  rfl

namespace RawTcpPacket

/-- A small difference of two `size_t`s, as the signed number it is used as. -/
theorem toInt_sub_of_lt {m n : ℕ} (hm : m < 64) (hn : n < 64) :
    (BitVec.ofNat 64 m - BitVec.ofNat 64 n).toInt = (m : ℤ) - n := by
  rw [BitVec.toInt_sub, BitVec.toInt_ofNat', BitVec.toInt_ofNat', Int.bmod_sub_bmod,
    Int.sub_bmod_bmod, Int.bmod_eq_of_le]
  · push_cast
    omega
  · push_cast
    omega

/-- The first statements of `tcb_t::process`: the head moves by twenty bytes,
whatever the data offset is, and then by what the data offset has beyond them.
The second number is negative below five, and the head goes back. -/
theorem parse_of_consume {pkt : RawTcpPacket} {tcph : TcpHeader} {rest : List Byte}
    (hread : TcpHeader.consumeFromNet pkt.skb.payload = some (tcph, rest)) :
    ∃ n : ℕ, (5 ≤ tcph.dataOffset.toNat → n = 4 * tcph.dataOffset.toNat - TcpHeader.fixedSize) ∧
      pkt.parse = (do
        let skb ← Skbuff.popFront ⟨pkt.skb.front ++ pkt.skb.payload.take TcpHeader.fixedSize,
          pkt.skb.payload.drop TcpHeader.fixedSize, pkt.skb.back⟩
            (4 * tcph.dataOffset.toNat - TcpHeader.fixedSize)
        return {
          proto := pkt.proto, remoteEp := pkt.remoteEp, localEp := pkt.localEp,
          skb := ⟨tcph, (pkt.skb.payload.drop TcpHeader.fixedSize).take n, skb.payload⟩ }) := by
  have hlen := (TcpHeader.fixed_consumeFromNet.of_eq_some hread).1
  have hsmall := tcph.dataOffset.isLt
  have hhlen : tcph.dataOffset.toNat <<< 2 = 4 * tcph.dataOffset.toNat := by
    rw [Nat.shiftLeft_eq]
    omega
  set optlen : BitVec 64 :=
    BitVec.ofNat 64 (4 * tcph.dataOffset.toNat) - BitVec.ofNat 64 TcpHeader.fixedSize with hoptlen
  have hcancel : (BitVec.ofNat 64 (4 * tcph.dataOffset.toNat) - optlen).toInt
      = (TcpHeader.fixedSize : ℕ) := by
    rw [hoptlen, sub_sub_cancel]
    rfl
  have hint : optlen.toInt = 4 * tcph.dataOffset.toNat - (TcpHeader.fixedSize : ℕ) := by
    have h := @toInt_sub_of_lt (4 * tcph.dataOffset.toNat) TcpHeader.fixedSize (by omega) (by decide)
    rw [hoptlen, h]
    push_cast
    rfl
  refine ⟨optlen.toNat, fun hfive => ?_, ?_⟩
  · rw [hoptlen, BitVec.toNat_sub, BitVec.toNat_ofNat, BitVec.toNat_ofNat]
    simp only [TcpHeader.fixedSize]
    omega
  · simp only [parse, if_neg (Nat.not_lt.mpr hlen)]
    rw [consume_eq hread, EventSystem.ok_bind]
    simp only [hhlen, ← hoptlen, hcancel]
    rw [Skbuff.popFront_of_le hlen, EventSystem.ok_bind, hint]

/-- `tcb_t::process` finds options and text where the data offset says. -/
theorem parse_of_le {pkt : RawTcpPacket} {tcph : TcpHeader} {rest : List Byte}
    (hread : TcpHeader.consumeFromNet pkt.skb.payload = some (tcph, rest))
    (hfive : 5 ≤ tcph.dataOffset.toNat)
    (hle : 4 * tcph.dataOffset.toNat ≤ pkt.skb.payload.length) :
    pkt.parse = .ok
      { proto := pkt.proto, remoteEp := pkt.remoteEp, localEp := pkt.localEp,
        skb := ⟨tcph, (pkt.skb.payload.take (4 * tcph.dataOffset.toNat)).drop TcpHeader.fixedSize,
          pkt.skb.payload.drop (4 * tcph.dataOffset.toNat)⟩ } := by
  obtain ⟨n, hn, hparse⟩ := parse_of_consume hread
  have hsize : TcpHeader.fixedSize ≤ 4 * tcph.dataOffset.toNat := by
    simp only [TcpHeader.fixedSize]
    omega
  have hcast : (4 * tcph.dataOffset.toNat - TcpHeader.fixedSize : ℤ)
      = (4 * tcph.dataOffset.toNat - TcpHeader.fixedSize : ℕ) := by
    omega
  rw [hparse, hn hfive, hcast, Skbuff.popFront_of_le (by rw [List.length_drop]; omega),
    EventSystem.ok_bind]
  dsimp only
  rw [List.drop_drop, Nat.add_sub_cancel' hsize, List.drop_take]
  rfl

/-- `tcb_t::process` finds options and text again, if the data offset says
where. -/
theorem parse_eq {pkt : RawTcpPacket} {h : TcpHeader}
    {front opts text back : List Byte}
    (hskb : pkt.skb = ⟨front, h.produceToNet ++ (opts ++ text), back⟩)
    (hoffset : 4 * h.dataOffset.toNat = TcpHeader.fixedSize + opts.length) :
    pkt.parse = .ok
      { proto := pkt.proto, remoteEp := pkt.remoteEp, localEp := pkt.localEp,
        skb := { tcph := { h with reserved := 0 }, opts, text } } := by
  have hread : TcpHeader.consumeFromNet pkt.skb.payload
      = some ({ h with reserved := 0 }, opts ++ text) := by
    rw [hskb]
    exact h.consume_produce _
  have hcut : pkt.skb.payload = h.produceToNet ++ opts ++ text := by
    rw [hskb, List.append_assoc]
  have hlen : 4 * h.dataOffset.toNat = (h.produceToNet ++ opts).length := by
    rw [hoffset, List.length_append, TcpHeader.length_produceToNet]
  have hfive : 5 ≤ h.dataOffset.toNat := by
    simp only [TcpHeader.fixedSize] at hoffset
    omega
  have hle : 4 * h.dataOffset.toNat ≤ pkt.skb.payload.length := by
    rw [hcut, hlen]
    exact (List.sublist_append_left _ text).length_le
  have hparse := parse_of_le hread hfive hle
  rw [hparse]
  dsimp only
  rw [hcut, hlen, List.take_left, List.drop_left, ← TcpHeader.length_produceToNet h,
    List.drop_left]

end RawTcpPacket

end Mstack
