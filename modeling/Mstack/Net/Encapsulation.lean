import Mstack.Net.RawFlow

/-!
# Down the stack and up again

A segment of `tcb_t` goes down through `tcp`, `ipv4` and `ethernetv2`, each of
which writes its header in front of what it was given (`encapsulate`); a
received frame goes up through the three `make_packet`s and the first
statements of `tcb_t::process` (`decapsulate`).

    tcb_t       |                        options | text
    tcp         |             tcp header | options | text
    ipv4        | ip header | tcp header | options | text
    ethernetv2  | ethernet header | ip header | tcp header | options | text

In the middle is a frame of three headers and the body of the segment.
`encapsulate_eq` says that going down produces one, whatever the allocator left
in the buffer; `decapsulate_sealed` says that going up recovers the segment
from any of them.  Neither mentions the other: a frame that another stack has
built is opened as well, as long as it has this shape.

### What is load-bearing

* **Room.**  A packet is serialized into a buffer with room for the headers
  below it, `TcpPacket.additionalRoom`.  Each layer takes exactly its part, so
  that the frame begins at the start of the allocation (`headroom = 0`), and
  nothing of it is left over.
* **The junk.**  The buffer is allocated without being initialised, and `junk`
  is what is in it.  The frame does not depend on `junk`: every byte of it is
  written.
* **What the receiver needs.**  No rule that would take the packet out of the
  stack, and no flow of its own for it: hypotheses of `decapsulate_sealed`, and
  of nothing else.
-/

namespace Mstack

open BigEndian EventSystem

/-- The way down, for a frame that gets the addresses `srcMac` and `dstMac`;
`seq` is the value of `seq_++` in `ipv4::process`. -/
def encapsulate (junk : ℕ → Byte) (seq : BitVec 16) (srcMac dstMac : MacAddr) (dev : DeviceId)
    (pkt : TcpPacket) : Except NetFault (Skbuff × DeviceId) := do
  let raw ← pkt.serialize junk
  let ip ← Tcp.process raw
  let skb ← Ipv4.skbOut seq ip
  Ethernetv2.process
    { srcMacAddr := srcMac, dstMacAddr := dstMac, proto := Ipv4.PROTO, skb, dev := some dev }

/-- The way up of a TCP segment, as `netns` has wired the layers: frames of
another protocol and packets that `tcp` keeps do not arrive.  `freed` is what
memory that has been given back holds, which matters only if a rule of `tcp`
has failed. -/
def decapsulate (freed : ℕ → Byte) (tcp : Tcp) (skb : Skbuff) (dev : DeviceId) :
    Except NetFault (Option TcpPacket) := do
  let frame ← Ethernetv2.makePacket skb dev
  if frame.proto ≠ Ipv4.PROTO then return none
  else
    match ← Ipv4.makePacket frame with
    | none => return none
    | some ip =>
        if ip.proto ≠ 0x06 then return none
        else
          match ← tcp.makePacket freed ip with
          | (none, _) => return none
          | (some raw, _) => return some (← raw.parse)

/-! ## Going down

The buffer is followed through the layers: what is in front of the head, and
what behind it. -/

/-- A list may be cut anywhere. -/
theorem exists_cut {l : List Byte} {m n : ℕ} (h : l.length = m + n) :
    ∃ a b, l = a ++ b ∧ a.length = m ∧ b.length = n := by
  refine ⟨l.take m, l.drop m, (List.take_append_drop m l).symm, ?_, ?_⟩
  · rw [List.length_take]
    omega
  · rw [List.length_drop]
    omega

/-- `tcp::process` on a packet of `tcb_t`: the header with its checksum. -/
theorem Tcp.process_serialized {raw : RawTcpPacket} {h : TcpHeader} {front body : List Byte}
    (hskb : raw.skb = ⟨front, h.produceToNet ++ body, []⟩)
    (hfront : front.length = TcpPacket.additionalRoom) :
    ∃ front' chsum, front'.length = TcpPacket.additionalRoom ∧ Tcp.process raw = .ok
      { srcAddrv4 := raw.localEp.addrv4, dstAddrv4 := raw.remoteEp.addrv4, proto := raw.proto,
        skb := ⟨front', { h with chsum }.produceToNet ++ body, []⟩ } := by
  obtain ⟨a, mid, rfl, ha, hmid⟩ := exists_cut (m := 22) (n := 12) hfront
  rw [TcpHeader.produceToNet_eq] at hskb
  have heven : Even a.length := by rw [ha]; decide
  have hout := Tcp.process_eq hskb heven hmid (TcpHeader.length_beforeChsum h) (by simp) (by simp)
  generalize chsumOf _ = c at hout
  have hbytes : h.beforeChsum ++ (native16 c ++ (put h.urgentPointer ++ body))
      = { h with chsum := byteswap c }.produceToNet ++ body := by
    rw [native16_eq_put, TcpHeader.produceToNet_eq]
    rfl
  rw [hbytes] at hout
  refine ⟨a ++ Tcp.pseudoHeader raw, byteswap c, ?_, hout⟩
  rw [List.length_append, ha, Tcp.length_pseudoHeader]
  rfl

/-- `ipv4::process` on a packet of `tcp`: the header with its checksum. -/
theorem Ipv4.skbOut_sealed (seq : BitVec 16) {pkt : Ipv4Packet} {front payload : List Byte}
    (hskb : pkt.skb = ⟨front, payload, []⟩) (hfront : front.length = TcpPacket.additionalRoom) :
    ∃ front' h, front'.length = EthernetHeader.size ∧
      (∃ headerChsum, h = { Ipv4.ipv4h seq pkt with headerChsum }) ∧
      Ipv4.skbOut seq pkt = .ok ⟨front', h.produceToNet ++ payload, []⟩ := by
  obtain ⟨front', mid, rfl, hfront', hmid⟩ := exists_cut hfront
  have heven : Even front'.length := by rw [hfront']; decide
  have hout := Ipv4.skbOut_eq seq hskb heven hmid
  have hbytes (rest : List Byte) (c : BitVec 16) : (Ipv4.ipv4h seq pkt).beforeChsum ++
      (native16 c ++ (put pkt.srcAddrv4 ++ put pkt.dstAddrv4)) ++ rest
      = { Ipv4.ipv4h seq pkt with headerChsum := byteswap c }.produceToNet ++ rest := by
    rw [native16_eq_put, Ipv4Header.produceToNet_eq]
    simp only [List.append_assoc]
    rfl
  rw [Ipv4.sealedHeader, hbytes] at hout
  exact ⟨front', _, hfront', ⟨_, rfl⟩, hout⟩

/-- **What `tcp` and `ipv4` make of a packet**: the body of the segment behind
two headers. -/
theorem TcpPacket.layers_eq (junk : ℕ → Byte) (seq : BitVec 16) (pkt : TcpPacket) :
    ∃ raw ip front ih chsum, pkt.serialize junk = .ok raw ∧ Tcp.process raw = .ok ip ∧
      raw.skb.payload = pkt.skb.tcph.produceToNet ++ (pkt.skb.opts ++ pkt.skb.text) ∧
      ip.skb.payload = { pkt.skb.tcph with chsum }.produceToNet ++
        (pkt.skb.opts ++ pkt.skb.text) ∧
      (ip.proto = pkt.proto ∧ ip.srcAddrv4 = pkt.localEp.addrv4 ∧
        ip.dstAddrv4 = pkt.remoteEp.addrv4) ∧
      front.length = EthernetHeader.size ∧
      (∃ headerChsum, ih = { Ipv4.ipv4h seq ip with headerChsum }) ∧
      Ipv4.skbOut seq ip = .ok ⟨front, ih.produceToNet ++ ip.skb.payload, []⟩ := by
  obtain ⟨front₁, hfront₁, hraw⟩ := pkt.serialize_eq junk
  have hskb₁ : (⟨pkt.proto, pkt.remoteEp, pkt.localEp,
      ⟨front₁, pkt.skb.tcph.produceToNet ++ (pkt.skb.opts ++ pkt.skb.text), []⟩⟩ :
      RawTcpPacket).skb = ⟨front₁, _, []⟩ := rfl
  obtain ⟨front₂, chsum, hfront₂, hip⟩ := Tcp.process_serialized hskb₁ hfront₁
  have hskb₂ : (⟨pkt.localEp.addrv4, pkt.remoteEp.addrv4, pkt.proto,
      ⟨front₂, { pkt.skb.tcph with chsum }.produceToNet ++ (pkt.skb.opts ++ pkt.skb.text), []⟩⟩ :
      Ipv4Packet).skb = ⟨front₂, _, []⟩ := rfl
  obtain ⟨front₃, ih, hfront₃, hih, hskb⟩ := Ipv4.skbOut_sealed seq hskb₂ hfront₂
  exact ⟨_, _, front₃, ih, chsum, hraw, hip, rfl, rfl, ⟨rfl, rfl, rfl⟩, hfront₃, hih, hskb⟩

/-- **The frame on the wire**: three headers and the body of the segment, from
the start of the buffer to its end. -/
theorem encapsulate_eq (junk : ℕ → Byte) (seq : BitVec 16) (srcMac dstMac : MacAddr)
    (dev : DeviceId) (pkt : TcpPacket) :
    ∃ (ip : Ipv4Header) (chsum : BitVec 16),
      (ip.version = 4 ∧ ip.protoType = pkt.proto ∧ ip.srcAddr = pkt.localEp.addrv4 ∧
        ip.dstAddr = pkt.remoteEp.addrv4) ∧
      encapsulate junk seq srcMac dstMac dev pkt = .ok
        (⟨[], (⟨dstMac, srcMac, Ipv4.PROTO⟩ : EthernetHeader).produceToNet ++
          (ip.produceToNet ++ ({ pkt.skb.tcph with chsum }.produceToNet ++
            (pkt.skb.opts ++ pkt.skb.text))), []⟩, dev) := by
  obtain ⟨raw, ip, front, ih, chsum, hraw, hip, -, hpayload, hfields, hfront, ⟨headerChsum, hh⟩,
    hskb⟩ := pkt.layers_eq junk seq
  have hframe (payload : List Byte) : (⟨srcMac, dstMac, Ipv4.PROTO, ⟨front, payload, []⟩,
      some dev⟩ : EthernetFrame).skb = ⟨[] ++ front, payload, []⟩ := rfl
  refine ⟨ih, chsum, by subst hh; exact ⟨rfl, hfields⟩, ?_⟩
  simp only [encapsulate]
  rw [hraw, ok_bind, hip, ok_bind, hskb, ok_bind, hpayload]
  exact Ethernetv2.process_eq rfl (hframe _) hfront

/-! ## Going up

Each layer reads its header, pops it, and finds the payload of the next one. -/

/-- What `tcb_t` puts into every packet it emits: the ports of its endpoints, a
data offset that is true, and no reserved bits. -/
structure TcpPacket.WellFormed (pkt : TcpPacket) : Prop where
  proto : pkt.proto = 0x06
  srcPort : pkt.skb.tcph.srcPort = pkt.localEp.addrv4Port
  dstPort : pkt.skb.tcph.dstPort = pkt.remoteEp.addrv4Port
  reserved : pkt.skb.tcph.reserved = 0
  dataOffset : 4 * pkt.skb.tcph.dataOffset.toNat = TcpHeader.fixedSize + pkt.skb.opts.length

/-- `make_packet` makes nothing else, and no options. -/
theorem Tcb.makePacket_wellFormed {t t' : Tcb} {pkt : TcpPacket}
    (h : t.makePacket = .ok (pkt, t')) : pkt.WellFormed ∧ pkt.skb.opts = [] := by
  obtain ⟨pq, -, h⟩ := bind_eq_ok.mp h
  dsimp only at h
  split at h
  · cases h
  · cases h
    exact ⟨⟨rfl, rfl, rfl, rfl, rfl⟩, rfl⟩

/-- A `tcp` that does not take the flow `key` out of the stack passes its
packets up. -/
theorem Tcp.makePacket_passes (freed : ℕ → Byte) {tcp : Tcp} {pktIn : Ipv4Packet}
    {pkt : RawTcpPacket} (hpkt : Tcp.tcpPkt pktIn = .ok pkt) (hrules : tcp.rules = [])
    (hflow : tcp.rcvRawStates pkt.twoEnd = none) :
    tcp.makePacket freed pktIn = .ok (some pkt, tcp) := by
  simp only [Tcp.makePacket]
  rw [hpkt, ok_bind]
  simp only [hflow, hrules]
  rfl

/-- **Any sealed frame is opened**: the receiver finds the headers and the body
where the sender put them, with the two endpoints in their new roles. -/
theorem decapsulate_sealed (freed : ℕ → Byte) {tcp : Tcp} {eth : EthernetHeader}
    {ip : Ipv4Header} {h : TcpHeader} {opts : List Byte} (hrules : tcp.rules = [])
    (hflow : tcp.rcvRawStates ⟨⟨ip.srcAddr, h.srcPort⟩, ⟨ip.dstAddr, h.dstPort⟩⟩ = none)
    (heth : eth.proto = Ipv4.PROTO) (hversion : ip.version = 4) (hproto : ip.protoType = 0x06)
    (hoffset : 4 * h.dataOffset.toNat = TcpHeader.fixedSize + opts.length) (dev : DeviceId)
    (text : List Byte) :
    decapsulate freed tcp ⟨[], eth.produceToNet ++ (ip.produceToNet ++
        (h.produceToNet ++ (opts ++ text))), []⟩ dev
      = .ok (some
        { proto := 0x06, remoteEp := ⟨ip.srcAddr, h.srcPort⟩, localEp := ⟨ip.dstAddr, h.dstPort⟩,
          skb := { tcph := { h with reserved := 0 }, opts, text } }) := by
  have hpkt (front : List Byte) : Tcp.tcpPkt ⟨ip.srcAddr, ip.dstAddr, 0x06,
      ⟨front, h.produceToNet ++ (opts ++ text), []⟩⟩ = .ok ⟨0x06, ⟨ip.srcAddr, h.srcPort⟩,
        ⟨ip.dstAddr, h.dstPort⟩, ⟨front, h.produceToNet ++ (opts ++ text), []⟩⟩ :=
    Tcp.tcpPkt_eq rfl
  simp only [decapsulate]
  rw [Ethernetv2.makePacket_eq rfl, ok_bind, if_neg (not_not.mpr heth),
    Ipv4.makePacket_eq rfl hversion, ok_bind]
  simp only [hproto, ne_eq, not_true_eq_false, if_false]
  rw [Tcp.makePacket_passes freed (hpkt _) hrules hflow, ok_bind]
  dsimp only
  rw [RawTcpPacket.parse_eq rfl hoffset]
  rfl

/-- **Encapsulation is undone by decapsulation.**  A segment of `make_packet`
that fits the receive buffer goes down without a failed assertion; its frame
begins at the start of the buffer and is 54 bytes longer than the text.  A
stack that receives these bytes and does not intercept the flow hands its
`tcb_t` the same header up to the checksum, no options and the same text, with
the roles of the endpoints exchanged. -/
theorem encapsulate_decapsulate {t t' : Tcb} {pkt : TcpPacket}
    (hmake : t.makePacket = .ok (pkt, t')) (hfits : pkt.skb.text.length ≤ 1446)
    (junk freed : ℕ → Byte) (seq : BitVec 16) (srcMac dstMac : MacAddr) (dev dev' : DeviceId)
    {tcp : Tcp} (hrules : tcp.rules = [])
    (hflow : tcp.rcvRawStates ⟨pkt.localEp, pkt.remoteEp⟩ = none) :
    ∃ frame, encapsulate junk seq srcMac dstMac dev pkt = .ok (frame, dev) ∧
      frame.headroom = 0 ∧ frame.payload.length = pkt.skb.text.length + 54 ∧
      ∃ chsum, decapsulate freed tcp (Device.received frame.payload) dev' = .ok (some
        { proto := 0x06, remoteEp := pkt.localEp, localEp := pkt.remoteEp,
          skb := { tcph := { pkt.skb.tcph with chsum }, opts := [], text := pkt.skb.text } }) := by
  obtain ⟨hwf, hopts⟩ := Tcb.makePacket_wellFormed hmake
  obtain ⟨ip, chsum, ⟨hversion, hproto, hsrc, hdst⟩, hdown⟩ :=
    encapsulate_eq junk seq srcMac dstMac dev pkt
  obtain ⟨h, hh⟩ : ∃ h, h = { pkt.skb.tcph with chsum } := ⟨_, rfl⟩
  have hsrcPort : h.srcPort = pkt.localEp.addrv4Port := by rw [hh]; exact hwf.srcPort
  have hdstPort : h.dstPort = pkt.remoteEp.addrv4Port := by rw [hh]; exact hwf.dstPort
  have hremote : (⟨ip.srcAddr, h.srcPort⟩ : Endpoint) = pkt.localEp := by rw [hsrc, hsrcPort]
  have hlocal : (⟨ip.dstAddr, h.dstPort⟩ : Endpoint) = pkt.remoteEp := by rw [hdst, hdstPort]
  have hoffset : 4 * h.dataOffset.toNat = TcpHeader.fixedSize + ([] : List Byte).length := by
    rw [hh, ← hopts]
    exact hwf.dataOffset
  have hreserved : { h with reserved := 0 } = h := by rw [hh, ← hwf.reserved]
  rw [← hh, hopts] at hdown
  have hlen : ((⟨dstMac, srcMac, Ipv4.PROTO⟩ : EthernetHeader).produceToNet ++ (ip.produceToNet ++
      (h.produceToNet ++ ([] ++ pkt.skb.text)))).length = pkt.skb.text.length + 54 := by
    simp only [List.length_append, EthernetHeader.length_produceToNet,
      Ipv4Header.length_produceToNet, TcpHeader.length_produceToNet, List.length_nil,
      EthernetHeader.size, Ipv4Header.fixedSize, TcpHeader.fixedSize]
    omega
  -- Going up, every layer reads back the header that its twin has written.
  have hup := decapsulate_sealed freed hrules (by rw [hremote, hlocal]; exact hflow)
    (show (⟨dstMac, srcMac, Ipv4.PROTO⟩ : EthernetHeader).proto = Ipv4.PROTO from rfl) hversion
    (hproto.trans hwf.proto) hoffset dev' pkt.skb.text
  rw [hremote, hlocal, hreserved] at hup
  refine ⟨_, hdown, rfl, hlen, chsum, ?_⟩
  rw [← hh, Device.received, List.take_of_length_le (hlen.trans_le (by omega))]
  exact hup

/-- An established `tcb_t` with three bytes to send, between port 1 of host 1
and port 2 of host 2. -/
def Tcb.threeBytes : Tcb :=
  { Tcb.create ⟨1, 1⟩ ⟨2, 2⟩ .established .established default default with
    send :=
      { state := { seqNrUnack := 7, seqNrNext := 7, window := 8, mss := 4 }
        pq := some ((CircularBuffer.ofCapacity 8).insertEnd [1, 2, 3]) } }

/-- Three bytes go down at one host and come up at another. -/
theorem threeBytes_round_trip :
    ∃ pkt t', Tcb.threeBytes.makePacket = .ok (pkt, t') ∧ pkt.skb.text = [1, 2, 3] ∧
      ∃ frame, encapsulate (fun _ => 0xAA) 0xFFFF 5 6 0 pkt = .ok (frame, 0) ∧
        frame.headroom = 0 ∧ frame.payload.length = 57 ∧
        ∃ chsum, decapsulate (fun _ => 0) Tcp.create (Device.received frame.payload) 1 = .ok (some
          { proto := 0x06, remoteEp := ⟨2, 2⟩, localEp := ⟨1, 1⟩,
            skb := { tcph := { pkt.skb.tcph with chsum }, opts := [], text := [1, 2, 3] } }) := by
  obtain ⟨pkt, t', hmake⟩ : ∃ pkt t', Tcb.threeBytes.makePacket = .ok (pkt, t') := ⟨_, _, rfl⟩
  have htext : pkt.skb.text = [1, 2, 3] := by cases hmake; rfl
  have hends : pkt.localEp = ⟨2, 2⟩ ∧ pkt.remoteEp = ⟨1, 1⟩ := by cases hmake; exact ⟨rfl, rfl⟩
  have htrip := encapsulate_decapsulate hmake (by rw [htext]; decide) (fun _ => 0xAA) (fun _ => 0)
    0xFFFF 5 6 0 1 (show Tcp.create.rules = [] from rfl) rfl
  rw [htext, hends.1, hends.2] at htrip
  exact ⟨pkt, t', hmake, htext, htrip⟩

end Mstack
