import Mstack.Net.Resolve

/-!
# Every emitted checksum verifies

Three layers compute a checksum over what they emit: `tcp::process` over the
pseudo header and the segment, `ipv4::process` over its header,
`icmp::async_reply` over its message.  All three do the same: the field is
blank while `checksum` reads the bytes, and the result is stored in host
order.  So each of the results below is the closed form of the layer together
with `chsumOf_verifies`.

### The pseudo header

`tcp::process` writes the twelve bytes of the pseudo header *in front of the
segment*, into the room that is left there for the headers below, sums over
both and moves its head back over them.  The bytes stay where they are and are
written over by `ipv4`.  Nothing marks them: that the checksum covers them, and
the segment does not contain them, is a matter of two pointers.

### What is load-bearing

* **Alignment.**  `checksum` asserts an even address.  The head is even when
  the packet is serialized and each header has an even length; for a packet
  that arrives from elsewhere (`Even … headroom`) it is a hypothesis.
* **Length.**  The accumulator is exact up to 131074 bytes and a length field
  up to 65535; the smaller bound is asked for.
* **The blank field.**  A field that is not blank would be part of its own
  sum.  The producers write what the header holds, and the headers of the
  program are made with zero there.
-/

namespace Mstack

open BigEndian EventSystem OnesComplement

/-- The pseudo header of a packet, as its receiver composes it. -/
def Ipv4Packet.pseudoHeader (pkt : Ipv4Packet) : List Byte :=
  put pkt.srcAddrv4 ++ put pkt.dstAddrv4 ++ put (0 : BitVec 8) ++ put pkt.proto ++
    put (BitVec.ofNat 16 pkt.skb.payload.length)

/-- A blank field. -/
theorem put_zero : put (0 : BitVec 16) = [0, 0] := by decide

/-! ## `tcp`

The field lies sixteen bytes into the segment, behind twelve of the pseudo
header. -/

/-- A buffer with room in front of its head. -/
theorem Skbuff.exists_room {skb : Skbuff} {n : ℕ} (h : n ≤ skb.headroom) :
    ∃ front mid, skb = ⟨front ++ mid, skb.payload, skb.back⟩ ∧
      front.length = skb.headroom - n ∧ mid.length = n := by
  refine ⟨skb.front.take (skb.headroom - n), skb.front.drop (skb.headroom - n), ?_, ?_, ?_⟩
  · rw [List.take_append_drop]
  · rw [List.length_take]
    exact min_eq_left (Nat.sub_le _ _)
  · rw [List.length_drop]
    change skb.headroom - (skb.headroom - n) = n
    omega

/-- The bytes of a segment around its checksum field. -/
theorem exists_chsum_field {bs : List Byte} (h : TcpHeader.fixedSize ≤ bs.length) :
    ∃ pre old post, bs = pre ++ (old ++ post) ∧ pre.length = 16 ∧ old.length = 2 ∧
      2 ≤ post.length := by
  simp only [TcpHeader.fixedSize] at h
  refine ⟨bs.take 16, (bs.drop 16).take 2, (bs.drop 16).drop 2, ?_, ?_, ?_, ?_⟩
  · rw [List.take_append_drop, List.take_append_drop]
  all_goals
    simp only [List.length_take, List.length_drop]
    omega

/-- **`tcp::process` seals the segment**, over the pseudo header of the packet
it enqueues.  The pseudo header is written in front of the payload, into the
headroom, and taken off again; the headroom has to be even for the alignment
that `checksum` asserts. -/
theorem Tcp.process_verifies {pkt : RawTcpPacket} (heven : Even pkt.skb.headroom)
    (hroom : 12 ≤ pkt.skb.headroom) (hheader : TcpHeader.fixedSize ≤ pkt.skb.payload.length)
    (hlen : 12 + pkt.skb.payload.length ≤ 65535) :
    ∃ ip, Tcp.process pkt = .ok ip ∧ ip.skb.payload.length = pkt.skb.payload.length ∧
      Verifies (ip.pseudoHeader ++ ip.skb.payload) := by
  obtain ⟨front, mid, hskb, hfront, hmid⟩ := Skbuff.exists_room hroom
  obtain ⟨pre, old, post, hpayload, hpre, hold, hpost⟩ := exists_chsum_field hheader
  have hlength : pkt.skb.payload.length = (pre ++ ([0, 0] ++ post)).length := by
    rw [hpayload]
    simp only [List.length_append, hold, List.length_cons, List.length_nil]
  have hfrontEven : Even front.length := by
    rw [hfront]
    exact (Nat.even_sub hroom).mpr (iff_of_true heven (by decide))
  rw [hpayload] at hskb
  have hout := Tcp.process_eq hskb hfrontEven hmid hpre hold hpost
  set chsum := chsumOf (pseudoHeader pkt ++ (pre ++ ([0, 0] ++ post))) with hchsum
  have hsame : (pre ++ (native16 chsum ++ post)).length = pkt.skb.payload.length := by
    rw [hlength]
    simp only [List.length_append, native16, List.length_cons, List.length_nil]
  refine ⟨_, hout, hsame, ?_⟩
  have hpseudo : (processRaw { pkt with
      skb := ⟨front ++ pseudoHeader pkt, pre ++ (native16 chsum ++ post), pkt.skb.back⟩ :
        RawTcpPacket }).pseudoHeader = pseudoHeader pkt := by
    simp only [Ipv4Packet.pseudoHeader, processRaw, hsame, pseudoHeader]
  have hverifies := chsumOf_verifies
    (show Even (pseudoHeader pkt ++ pre).length by
      rw [List.length_append, length_pseudoHeader, hpre]
      decide)
    (show (pseudoHeader pkt ++ pre ++ ([0, 0] ++ post)).length ≤ 65535 by
      rw [List.append_assoc, List.length_append, length_pseudoHeader, ← hlength]
      exact hlen)
  rw [List.append_assoc, List.append_assoc, ← hchsum] at hverifies
  rw [hpseudo]
  exact hverifies

/-! ## `ipv4`

The field lies ten bytes into the header, and the sum ends with the header. -/

/-- **`ipv4::process` seals its header**, and leaves the payload behind it
alone. -/
theorem Ipv4.skbOut_verifies (seq : BitVec 16) {pkt : Ipv4Packet} (heven : Even pkt.skb.headroom)
    (hroom : Ipv4Header.fixedSize ≤ pkt.skb.headroom) :
    ∃ skb, skbOut seq pkt = .ok skb ∧
      skb.payload.drop Ipv4Header.fixedSize = pkt.skb.payload ∧
      Verifies (skb.payload.take Ipv4Header.fixedSize) := by
  obtain ⟨front, mid, hskb, hfront, hmid⟩ := Skbuff.exists_room hroom
  have hfrontEven : Even front.length := by
    rw [hfront]
    exact (Nat.even_sub hroom).mpr (iff_of_true heven (by decide))
  have hblank : (ipv4h seq pkt).produceToNet
      = (ipv4h seq pkt).beforeChsum ++ ([0, 0] ++ (put pkt.srcAddrv4 ++ put pkt.dstAddrv4)) := by
    have hsplit := (ipv4h seq pkt).produceToNet_eq []
    rw [List.append_nil, List.append_nil] at hsplit
    rw [← put_zero]
    exact hsplit
  have hverifies := chsumOf_verifies
    (show Even (ipv4h seq pkt).beforeChsum.length by
      rw [Ipv4Header.length_beforeChsum]
      decide)
    (show ((ipv4h seq pkt).beforeChsum
        ++ ([0, 0] ++ (put pkt.srcAddrv4 ++ put pkt.dstAddrv4))).length ≤ 65535 by
      rw [← hblank, Ipv4Header.length_produceToNet]
      decide)
  rw [← hblank] at hverifies
  refine ⟨_, skbOut_eq seq hskb hfrontEven hmid, ?_, ?_⟩
  · rw [← length_sealedHeader seq pkt, List.drop_left]
  · rw [← length_sealedHeader seq pkt, List.take_left]
    exact hverifies

/-- Resolution never fails: a request fits its buffer. -/
theorem Netns.asyncResolve_total (s : Netns) (junk : ℕ → Byte) (fromMac : MacAddr)
    (fromIpv4 toIpv4 : Ipv4Addr) (dev : DeviceId) (cb : ℕ) :
    ∃ s', s.asyncResolve junk fromMac fromIpv4 toIpv4 dev cb = .ok s' ∧
      s'.wrappers = s.wrappers := by
  unfold asyncResolve
  cases s.neighs.query toIpv4 with
  | some mac => exact ⟨_, rfl, rfl⟩
  | none =>
      have hfits (h : ArpHeader) : 0 + h.produceToNet.length
          ≤ (Skbuff.alloc junk (EthernetHeader.size + ArpHeader.size)
            EthernetHeader.size).payload.length := by
        rw [ArpHeader.length_produceToNet, Skbuff.length_payload_alloc]
        omega
      simp only [asyncRequest, Skbuff.write, if_pos (hfits _)]
      exact ⟨_, rfl, rfl⟩

/-- A packet with a route is given to address resolution in a sealed frame. -/
theorem Netns.ipv4Process_verifies {s : Netns} {pkt : Ipv4Packet} {nh : RouteRecord}
    {srcMac : MacAddr} (junk : ℕ → Byte) (heven : Even pkt.skb.headroom)
    (hroom : Ipv4Header.fixedSize ≤ pkt.skb.headroom) (hnh : s.rt.nh pkt.dstAddrv4 = some nh)
    (hsrc : s.neighs nh.fromAddrv4 = some srcMac) :
    ∃ s' frame, s.ipv4Process junk pkt = .ok s' ∧ s'.wrappers = s.wrappers ++ [frame] ∧
      frame.skb.payload.drop Ipv4Header.fixedSize = pkt.skb.payload ∧
      Verifies (frame.skb.payload.take Ipv4Header.fixedSize) := by
  obtain ⟨skb, hskb, hpayload, hverifies⟩ := Ipv4.skbOut_verifies s.seq heven hroom
  set frame : EthernetFrame := ⟨srcMac, 0, Ipv4.PROTO, skb, some nh.dev⟩
  obtain ⟨s', hs', hwrappers⟩ := Netns.asyncResolve_total
    { s with
      seq := s.seq + 1
      wrappers := s.wrappers ++ [frame]
      submissions := s.submissions ++ [⟨pkt, s.seq, frame, nh.viaAddrv4,
        s.neighs.query nh.viaAddrv4⟩] } junk srcMac nh.fromAddrv4 nh.viaAddrv4 nh.dev
    s.wrappers.length
  refine ⟨s', frame, ?_, hwrappers, hpayload, hverifies⟩
  simp only [ipv4Process, hskb, ok_bind, hnh, NeighCache.query, hsrc]
  exact hs'

/-! ## `icmp`

A reply is the request with another type: the identifier, the sequence number
and the data are where they were. -/

/-- An echo reply has type and code zero. -/
theorem IcmpHeader.beforeChsum_reply (chsum id seq : BitVec 16) :
    (⟨0, 0, chsum, id, seq⟩ : IcmpHeader).beforeChsum = [0, 0] := by
  have hbytes : put (0 : BitVec 8) ++ put (0 : BitVec 8) = [0, 0] := by decide
  exact hbytes

/-- `icmp::async_reply`, on a buffer whose head has moved over the request's
header. -/
theorem Icmp.asyncReply_eq (h : IcmpHeader) {pkt : Ipv4Packet} {front mid data back : List Byte}
    (hskb : pkt.skb = ⟨front ++ mid, data, back⟩) (hfront : Even front.length)
    (hmid : mid.length = IcmpHeader.size) :
    asyncReply h pkt = .ok
      { srcAddrv4 := pkt.dstAddrv4, dstAddrv4 := pkt.srcAddrv4, proto := pkt.proto,
        skb := ⟨front, [0, 0] ++ (native16 (chsumOf ([0, 0] ++ ([0, 0] ++
          (put h.id ++ put h.seq ++ data)))) ++ (put h.id ++ put h.seq ++ data)), back⟩ } := by
  have hroom : ¬ (⟨front ++ mid, data, back⟩ : Skbuff).headroom < IcmpHeader.size := by
    simp only [Skbuff.headroom, List.length_append]
    omega
  have hblank : (⟨0, 0, 0, h.id, h.seq⟩ : IcmpHeader).produceToNet ++ data
      = [0, 0] ++ ([0, 0] ++ (put h.id ++ put h.seq ++ data)) := by
    rw [IcmpHeader.produceToNet_eq, IcmpHeader.beforeChsum_reply, put_zero]
  have heven : Even (⟨front, (⟨0, 0, 0, h.id, h.seq⟩ : IcmpHeader).produceToNet ++ data, back⟩ :
      Skbuff).headroom := hfront
  have htwo : ([0, 0] : List Byte).length = 2 := rfl
  simp only [asyncReply, hskb, if_neg hroom]
  rw [Skbuff.pushFront_mk hmid, ok_bind,
    Skbuff.write_zero (by rw [hmid, IcmpHeader.length_produceToNet]), ok_bind,
    checksum_even heven, ok_bind, hblank, Skbuff.write_mk htwo (by simp [native16]), ok_bind]
  rfl

/-- **`icmp::process` answers an echo request** with a sealed message of the
same identifier, sequence number and data, to where it came from. -/
theorem Icmp.process_verifies {pkt : Ipv4Packet} {h : IcmpHeader} {data : List Byte}
    (hread : IcmpHeader.consumeFromNet pkt.skb.payload = some (h, data))
    (hecho : h.protoType = 0x08) (heven : Even pkt.skb.headroom)
    (hlen : pkt.skb.payload.length ≤ 65535) :
    ∃ reply chsum, Icmp.process pkt = .ok (some reply) ∧ Verifies reply.skb.payload ∧
      IcmpHeader.consumeFromNet reply.skb.payload
        = some ({ protoType := 0, code := 0, chsum, id := h.id, seq := h.seq }, data) ∧
      reply.srcAddrv4 = pkt.dstAddrv4 ∧ reply.dstAddrv4 = pkt.srcAddrv4 := by
  obtain ⟨hsize, hdata⟩ := IcmpHeader.fixed_consumeFromNet.of_eq_some hread
  have hshort : ¬ pkt.skb.payload.length < IcmpHeader.size := not_lt.mpr hsize
  have hmid : (pkt.skb.payload.take IcmpHeader.size).length = IcmpHeader.size := by
    rw [List.length_take]
    exact min_eq_left hsize
  have hreply := asyncReply_eq h
    (show ({ pkt with skb := ⟨pkt.skb.front ++ pkt.skb.payload.take IcmpHeader.size, data,
      pkt.skb.back⟩ } : Ipv4Packet).skb = ⟨_, _, _⟩ from rfl) heven hmid
  set chsum := chsumOf ([0, 0] ++ ([0, 0] ++ (put h.id ++ put h.seq ++ data))) with hchsum
  have hprocess : Icmp.process pkt = .ok (some
      { srcAddrv4 := pkt.dstAddrv4, dstAddrv4 := pkt.srcAddrv4, proto := pkt.proto,
        skb := ⟨pkt.skb.front, [0, 0] ++ (native16 chsum ++ (put h.id ++ put h.seq ++ data)),
          pkt.skb.back⟩ }) := by
    simp only [process, if_neg hshort]
    rw [consume_eq hread, ok_bind, Skbuff.popFront_of_le hsize, ok_bind, if_pos hecho, ← hdata,
      hreply]
    rfl
  refine ⟨_, byteswap chsum, hprocess, ?_, ?_, rfl, rfl⟩
  · have htwo : Even ([0, 0] : List Byte).length := by decide
    apply chsumOf_verifies htwo
    simp only [List.length_append, length_put, List.length_cons, List.length_nil, hdata,
      List.length_drop]
    simp only [IcmpHeader.size] at hsize ⊢
    omega
  · have hbytes : [0, 0] ++ (native16 chsum ++ (put h.id ++ put h.seq ++ data))
        = (⟨0, 0, byteswap chsum, h.id, h.seq⟩ : IcmpHeader).produceToNet ++ data := by
      rw [native16_eq_put, IcmpHeader.produceToNet_eq, IcmpHeader.beforeChsum_reply]
    change IcmpHeader.consumeFromNet ([0, 0] ++ (native16 chsum ++ _)) = _
    rw [hbytes, IcmpHeader.consume_produce]

/-- **Every emitted checksum verifies**, whatever the addresses, ports, header
fields and payload, on buffers whose allocation is aligned: the segment that
leaves `tcp::process` over its pseudo header, the header that leaves
`ipv4::process`, and the message that leaves `icmp::process`, which echoes the
request's identifier, sequence number and data back to where it came from. -/
theorem emitted_checksums_verify :
    (∀ pkt : RawTcpPacket, Even pkt.skb.headroom → 12 ≤ pkt.skb.headroom →
      TcpHeader.fixedSize ≤ pkt.skb.payload.length → 12 + pkt.skb.payload.length ≤ 65535 →
      ∃ ip, Tcp.process pkt = .ok ip ∧ ip.skb.payload.length = pkt.skb.payload.length ∧
        Verifies (ip.pseudoHeader ++ ip.skb.payload)) ∧
    (∀ (s : Netns) (junk : ℕ → Byte) (pkt : Ipv4Packet) (nh : RouteRecord) (srcMac : MacAddr),
      Even pkt.skb.headroom → Ipv4Header.fixedSize ≤ pkt.skb.headroom →
      s.rt.nh pkt.dstAddrv4 = some nh → s.neighs nh.fromAddrv4 = some srcMac →
      ∃ s' frame, s.ipv4Process junk pkt = .ok s' ∧ s'.wrappers = s.wrappers ++ [frame] ∧
        frame.skb.payload.drop Ipv4Header.fixedSize = pkt.skb.payload ∧
        Verifies (frame.skb.payload.take Ipv4Header.fixedSize)) ∧
    (∀ (pkt : Ipv4Packet) (h : IcmpHeader) (data : List Byte),
      IcmpHeader.consumeFromNet pkt.skb.payload = some (h, data) → h.protoType = 0x08 →
      Even pkt.skb.headroom → pkt.skb.payload.length ≤ 65535 →
      ∃ reply chsum, Icmp.process pkt = .ok (some reply) ∧ Verifies reply.skb.payload ∧
        IcmpHeader.consumeFromNet reply.skb.payload
          = some ({ protoType := 0, code := 0, chsum, id := h.id, seq := h.seq }, data) ∧
        reply.srcAddrv4 = pkt.dstAddrv4 ∧ reply.dstAddrv4 = pkt.srcAddrv4) := by
  refine ⟨?_, ?_, ?_⟩
  · intro pkt heven hroom hheader hlen
    exact Tcp.process_verifies heven hroom hheader hlen
  · intro s junk pkt nh srcMac heven hroom hnh hsrc
    exact Netns.ipv4Process_verifies junk heven hroom hnh hsrc
  · intro pkt h data hread hecho heven hlen
    exact Icmp.process_verifies hread hecho heven hlen

/-- A segment of 21 bytes. -/
def oddSegment : RawTcpPacket where
  proto := 0x06
  remoteEp := ⟨7, 80⟩
  localEp := ⟨2, 1024⟩
  skb := ⟨List.replicate 34 0, TcpHeader.bare.produceToNet ++ [0x61], []⟩

/-- An echo request with one byte of data, as `ipv4` hands it up. -/
def echoRequest : Ipv4Packet where
  srcAddrv4 := 7
  dstAddrv4 := 2
  proto := 0x01
  skb := ⟨List.replicate 34 0, (⟨8, 0, 0, 5, 6⟩ : IcmpHeader).produceToNet ++ [0xAB], []⟩

/-- An odd segment, a datagram of the gateway, and an echo request with one
byte of data. -/
theorem samples_verify :
    (∃ ip, Tcp.process oddSegment = .ok ip ∧ ip.skb.payload.length = 21 ∧
      Verifies (ip.pseudoHeader ++ ip.skb.payload)) ∧
    (∃ s' frame, Netns.gateway.ipv4Process (fun _ => 0) Netns.toHost7 = .ok s' ∧
      s'.wrappers = [frame] ∧ frame.skb.payload.drop 20 = List.replicate 20 0 ∧
      Verifies (frame.skb.payload.take 20)) ∧
    (∃ reply chsum, Icmp.process echoRequest = .ok (some reply) ∧ Verifies reply.skb.payload ∧
      IcmpHeader.consumeFromNet reply.skb.payload = some (⟨0, 0, chsum, 5, 6⟩, [0xAB]) ∧
      reply.srcAddrv4 = 2 ∧ reply.dstAddrv4 = 7) := by
  obtain ⟨htcp, hipv4, hicmp⟩ := emitted_checksums_verify
  refine ⟨?_, ?_, ?_⟩
  · exact htcp oddSegment (by decide) (by decide) (by decide) (by decide)
  · exact hipv4 Netns.gateway (fun _ => 0) Netns.toHost7 ⟨9, 2, 0⟩ 0x0A (by decide) (by decide)
      rfl rfl
  · exact hicmp echoRequest ⟨8, 0, 0, 5, 6⟩ [0xAB] (IcmpHeader.consume_produce _ _) rfl (by decide)
      (by decide)

end Mstack
