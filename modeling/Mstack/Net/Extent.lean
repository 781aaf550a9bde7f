import Mstack.Net.Encapsulation
import Mstack.Tcp.Control

/-!
# Where a packet ends and where its text begins

Three numbers say which bytes of a frame are the text of a segment: the total
length and the header length of the IPv4 header, and the data offset of the TCP
header.  `ipv4::make_packet` reads the first two and uses neither.
`tcb_t::process` uses the third and does not check it.

* `Describes`, `payloadOf` — an IPv4 header that describes a datagram which is
  there, and the payload it describes.
* `makePacket_extent_iff` — when `ipv4::make_packet` returns that payload.
* `OffsetValid`, `HonoursOffset` — a data offset that points into the segment
  behind the fixed header, and a block that takes options and text from where
  it points.
* `data_offset_honoured_iff` — when every block does.

### Two ways to read too much

**Padding.**  An Ethernet frame has at least 46 bytes of payload, and a short
datagram is filled up.  Since `total_length` is not used, the padding is text
(`padding_becomes_text`): bytes that nobody sent are delivered to a reader, and
RCV.NXT moves past what the peer has numbered.

**A short data offset.**  Below five, `optlen` wraps.  The two `pop_front`s
cancel the wrap, and the head comes to stand inside the header.  The options
then are a span that claims more bytes than there are; of these,
`RawTcpPacket.parse` keeps the ones in the buffer.  A reader is given bytes of
the header (`header_byte_delivered`).  A data offset beyond the segment is
caught, by the `assert` of the second `pop_front`.

### What is load-bearing

`HonoursOffset` is about every block, so for the converse each segment that
must be dropped needs a block that does not drop it.  That is the work of the
section on segments that no block reacts to: a SYN-ACK opens a block that waits
for one, a SYN one that listens, text is taken by `eager`, a block in
ESTABLISHED with a read outstanding.  What is left is RST, which everybody
ignores.
-/

namespace Mstack

open EventSystem

/-! ## The extent of a datagram

`makePacket` on a frame that holds a whole IPv4 header of version 4. -/

namespace Ipv4Header

/-- The header describes a datagram that is there: `len` bytes have been
received. -/
structure Describes (h : Ipv4Header) (len : ℕ) : Prop where
  version : h.version = 4
  fixedSize_le : 5 ≤ h.headerLength.toNat
  header_le : 4 * h.headerLength.toNat ≤ h.totalLength.toNat
  total_le : h.totalLength.toNat ≤ len

/-- The payload of the datagram at the front of `bs`: bytes `4 * header_length`
to `total_length - 1`. -/
def payloadOf (h : Ipv4Header) (bs : List Byte) : List Byte :=
  (bs.take h.totalLength.toNat).drop (4 * h.headerLength.toNat)

/-- The described payload is as long as the header says. -/
theorem length_payloadOf {h : Ipv4Header} {bs : List Byte} (hwf : h.Describes bs.length) :
    (h.payloadOf bs).length = h.totalLength.toNat - 4 * h.headerLength.toNat := by
  rw [payloadOf, List.length_drop, List.length_take, min_eq_left hwf.total_le]

end Ipv4Header

namespace Ipv4

/-- `ipv4::make_packet` on a frame whose header is complete: everything behind
the twenty fixed bytes is payload. -/
theorem makePacket_of_consume {frame : EthernetFrame} {h : Ipv4Header} {rest : List Byte}
    (hread : Ipv4Header.consumeFromNet frame.skb.payload = some (h, rest))
    (hversion : h.version = 4) :
    ∃ pkt, makePacket frame = .ok (some pkt) ∧
      pkt.skb.payload = frame.skb.payload.drop Ipv4Header.fixedSize := by
  have hlen := (Ipv4Header.fixed_consumeFromNet.of_eq_some hread).1
  have hfirst : (frame.skb.payload.headD 0 >>> 4) &&& 0xf = 0x4 := by
    rw [Ipv4Header.headD_of_consume hread, hversion]
    rfl
  simp only [makePacket, if_neg (Nat.not_lt.mpr hlen)]
  rw [if_neg (not_not.mpr hfirst), consume_eq hread, ok_bind, Skbuff.popFront_of_le hlen, ok_bind]
  exact ⟨_, rfl, rfl⟩

/-- **The payload is that of the datagram exactly if there is nothing to cut
off.**  `make_packet` returns the payload the header describes, and the same
one as for the frame without its padding, if and only if the header has no
options and the frame no padding.

`make_packet` takes the fixed header off the front and looks at neither
`header_length` nor `total_length`. -/
theorem makePacket_extent_iff {frame : EthernetFrame} {h : Ipv4Header} {rest : List Byte}
    (hread : Ipv4Header.consumeFromNet frame.skb.payload = some (h, rest))
    (hwf : h.Describes frame.skb.payload.length) :
    (∃ pkt, makePacket frame = .ok (some pkt) ∧
      pkt.skb.payload = h.payloadOf frame.skb.payload ∧
      ∀ frame', frame'.skb.payload = frame.skb.payload.take h.totalLength.toNat →
        ∃ pkt', makePacket frame' = .ok (some pkt') ∧ pkt'.skb.payload = pkt.skb.payload) ↔
    h.headerLength = 5 ∧ h.totalLength.toNat = frame.skb.payload.length := by
  obtain ⟨pkt, hmake, hpayload⟩ := makePacket_of_consume hread hwf.version
  have hfive : h.headerLength = 5 ↔ h.headerLength.toNat = 5 := BitVec.toNat_inj.symm
  have h5 := hwf.fixedSize_le
  have hle := hwf.header_le
  have htotal := hwf.total_le
  constructor
  · rintro ⟨pkt', hmake', hextent, -⟩
    obtain rfl : pkt = pkt' := Option.some.inj (Except.ok.inj (hmake.symm.trans hmake'))
    have hlen := congrArg List.length (hpayload.symm.trans hextent)
    rw [List.length_drop, Ipv4Header.length_payloadOf hwf, Ipv4Header.fixedSize] at hlen
    rw [hfive]
    omega
  · rintro ⟨hlength, hnone⟩
    have hall : frame.skb.payload.take h.totalLength.toNat = frame.skb.payload := by
      rw [hnone, List.take_length]
    refine ⟨pkt, hmake, ?_, ?_⟩
    · rw [hpayload, Ipv4Header.payloadOf, hall, hfive.mp hlength]
      rfl
    · intro frame' hframe'
      rw [hall] at hframe'
      rw [← hframe'] at hread hpayload
      obtain ⟨pkt', hmake', hpayload'⟩ := makePacket_of_consume hread hwf.version
      exact ⟨pkt', hmake', hpayload'.trans hpayload.symm⟩

/-- The header of a datagram of 41 bytes. -/
def oneByteHeader : Ipv4Header := ipv4h 0 ⟨1, 2, 0x06, ⟨[], List.replicate 21 0, []⟩⟩

/-- Its frame: a TCP header and the byte 7, filled up with `padding`. -/
def oneByteFrame (padding : List Byte) : EthernetFrame where
  srcMacAddr := 1
  dstMacAddr := 2
  proto := PROTO
  skb := ⟨[], oneByteHeader.produceToNet ++ (TcpHeader.bare.produceToNet ++ 7 :: padding), []⟩
  dev := none

/-- Without padding the payload is the segment with its one byte. -/
theorem oneByteFrame_extent :
    ∃ pkt, makePacket (oneByteFrame []) = .ok (some pkt) ∧
      pkt.skb.payload = TcpHeader.bare.produceToNet ++ [7] := by
  have hread := oneByteHeader.consume_produce (TcpHeader.bare.produceToNet ++ [7])
  have hwf : oneByteHeader.Describes (oneByteFrame []).skb.payload.length :=
    ⟨rfl, by decide, by decide, by decide⟩
  obtain ⟨pkt, hmake, hpayload, -⟩ :=
    (@makePacket_extent_iff (oneByteFrame []) _ _ hread hwf).mpr ⟨rfl, by decide⟩
  exact ⟨pkt, hmake, hpayload.trans (by decide)⟩

/-- Five bytes of padding become text of the segment. -/
theorem padding_becomes_text :
    oneByteHeader.Describes (oneByteFrame [0, 0, 0, 0, 0]).skb.payload.length ∧
      ∃ pkt raw seg, makePacket (oneByteFrame [0, 0, 0, 0, 0]) = .ok (some pkt) ∧
        pkt.skb.payload ≠ oneByteHeader.payloadOf (oneByteFrame [0, 0, 0, 0, 0]).skb.payload ∧
        Tcp.tcpPkt pkt = .ok raw ∧ raw.parse = .ok seg ∧ seg.skb.text = [7, 0, 0, 0, 0, 0] :=
  ⟨⟨rfl, by decide, by decide, by decide⟩, _, _, _, rfl, by decide, rfl, rfl, by decide⟩

end Ipv4

/-! ## The data offset

The three cases of `parse`: below five, within the segment, beyond it. -/

namespace RawTcpPacket

/-- A data offset below five: the head ends up inside the header. -/
theorem parse_of_lt {pkt : RawTcpPacket} {tcph : TcpHeader} {rest : List Byte}
    (hread : TcpHeader.consumeFromNet pkt.skb.payload = some (tcph, rest))
    (hfive : tcph.dataOffset.toNat < 5) :
    ∃ opts, pkt.parse = .ok
      { proto := pkt.proto, remoteEp := pkt.remoteEp, localEp := pkt.localEp,
        skb := ⟨tcph, opts, pkt.skb.payload.drop (4 * tcph.dataOffset.toNat)⟩ } := by
  have hlen := (TcpHeader.fixed_consumeFromNet.of_eq_some hread).1
  obtain ⟨n, -, hparse⟩ := parse_of_consume hread
  -- The header is what the head has moved over and what it moves back over.
  set offset := 4 * tcph.dataOffset.toNat with hoffset
  have hsize : offset ≤ TcpHeader.fixedSize := by
    simp only [TcpHeader.fixedSize]
    omega
  have hback : Skbuff.popFront ⟨pkt.skb.front ++ pkt.skb.payload.take TcpHeader.fixedSize,
      pkt.skb.payload.drop TcpHeader.fixedSize, pkt.skb.back⟩
        (4 * tcph.dataOffset.toNat - TcpHeader.fixedSize)
      = .ok ⟨pkt.skb.front ++ pkt.skb.payload.take offset, pkt.skb.payload.drop offset,
          pkt.skb.back⟩ := by
    have hhead : ((pkt.skb.front ++ pkt.skb.payload.take TcpHeader.fixedSize).length : ℤ)
        + (4 * tcph.dataOffset.toNat - TcpHeader.fixedSize)
        = ((pkt.skb.front ++ pkt.skb.payload.take offset).length : ℕ) := by
      simp only [List.length_append, List.length_take]
      omega
    have hcut : pkt.skb.front ++ pkt.skb.payload.take TcpHeader.fixedSize ++
        pkt.skb.payload.drop TcpHeader.fixedSize
        = pkt.skb.front ++ pkt.skb.payload.take offset ++ pkt.skb.payload.drop offset := by
      rw [List.append_assoc, List.append_assoc, List.take_append_drop, List.take_append_drop]
    simp only [Skbuff.popFront, Skbuff.headroom, hhead]
    rw [if_neg, if_neg (by omega), Skbuff.setHead]
    · simp only [Int.toNat_natCast, hcut, List.take_left, List.drop_left]
    · simp only [List.length_append, List.length_take, List.length_drop]
      omega
  rw [hparse, hback]
  exact ⟨_, rfl⟩

/-- A data offset beyond the segment: the second `pop_front` fails its
assertion. -/
theorem parse_of_gt {pkt : RawTcpPacket} {tcph : TcpHeader} {rest : List Byte}
    (hread : TcpHeader.consumeFromNet pkt.skb.payload = some (tcph, rest))
    (hlong : pkt.skb.payload.length < 4 * tcph.dataOffset.toNat) :
    pkt.parse = .error .headPastTail := by
  have hlen := (TcpHeader.fixed_consumeFromNet.of_eq_some hread).1
  obtain ⟨n, -, hparse⟩ := parse_of_consume hread
  rw [hparse, Skbuff.popFront, if_pos, error_bind]
  simp only [Skbuff.headroom, List.length_append, List.length_take, List.length_drop]
  omega

end RawTcpPacket

namespace Tcb

/-- `tcb_t::process`, from its first statement on: the two ways in which a
packet can stop the program, and then the segment. -/
def processPkt (isn : BitVec 32) (t : Tcb) (pktIn : RawTcpPacket) :
    Except (NetFault ⊕ Fault) Tcb := do
  let pkt ← pktIn.parse.mapError Sum.inl
  (t.process isn pkt.skb).mapError Sum.inr

/-- What the data offset of a segment of `n` bytes has to be. -/
def OffsetValid (tcph : TcpHeader) (n : ℕ) : Prop :=
  TcpHeader.fixedSize ≤ 4 * tcph.dataOffset.toNat ∧ 4 * tcph.dataOffset.toNat ≤ n

instance (tcph : TcpHeader) (n : ℕ) : Decidable (OffsetValid tcph n) := by
  unfold OffsetValid
  infer_instance

/-- The block takes options and text from where a valid data offset says, and
drops a segment whose data offset is not valid: it is the same block
afterwards. -/
def HonoursOffset (isn : BitVec 32) (t : Tcb) (pktIn : RawTcpPacket) (tcph : TcpHeader) : Prop :=
  let bs := pktIn.skb.payload
  let offset := 4 * tcph.dataOffset.toNat
  t.processPkt isn pktIn =
    if OffsetValid tcph bs.length then
      (t.process isn ⟨tcph, (bs.take offset).drop TcpHeader.fixedSize, bs.drop offset⟩).mapError
        Sum.inr
    else .ok t

/-! ### Segments that no block reacts to -/

/-- A SYN-ACK opens a connection that waits for it. -/
theorem process_ne_of_synAck {seg : Segment} (hSYN : seg.tcph.SYN = true)
    (hACK : seg.tcph.ACK = true) :
    ∃ t, ∀ isn, process isn t seg ≠ .ok t := by
  refine ⟨{ Tcb.create default default .synSent .established ⟨seg.tcph.ackNo, seg.tcph.ackNo, 0, 0⟩
    default with state := .synSent }, fun isn h => ?_⟩
  have hle : ¬ seg.tcph.ackNo < seg.tcph.ackNo := BitVec.lt_irrefl _
  simp only [process, tcpHandleSynSent, hSYN, hACK, create, hle] at h
  obtain ⟨opts, -, h⟩ := bind_eq_ok.mp h
  obtain ⟨u, hu, h⟩ := bind_eq_ok.mp h
  obtain ⟨pq, -, rfl⟩ := makeAndSendPkt_ok.mp hu
  -- The packet that answers the SYN-ACK is in the queue of the manager.
  have hmngr := congrArg mngr (Except.ok.inj h)
  cases hmngr

/-- A SYN opens a connection that listens. -/
theorem process_ne_of_syn {seg : Segment} (hRST : seg.tcph.RST = false)
    (hACK : seg.tcph.ACK = false) (hSYN : seg.tcph.SYN = true) :
    ∃ t, ∀ isn, process isn t seg ≠ .ok t := by
  refine ⟨Tcb.create default default .listen .listen default default, fun isn h => ?_⟩
  simp only [process, tcpHandleListenState, hSYN, hACK, hRST, create] at h
  obtain ⟨opts, -, h⟩ := bind_eq_ok.mp h
  obtain ⟨pq, -, hu⟩ := makeAndSendPkt_ok.mp h
  have hmngr := congrArg mngr hu
  cases hmngr

/-- A block in ESTABLISHED that waits for byte `next`: `ack` has been sent up
to `ackNo`, the queues are those of the program, and one read of one byte is
waiting.  With the window `rcvWindow` this is a state that the program
reaches. -/
def eager (ackNo next : BitVec 32) (window : BitVec 16) : Tcb :=
  let t := established (ackNo - 1) (next - 1) 500 500
  { t with
    onDataReceive := [⟨1, 0⟩]
    rcv := { t.rcv with state := { t.rcv.state with window } } }

/-- The number it waits for. -/
theorem eager_next (ackNo next : BitVec 32) (window : BitVec 16) :
    (eager ackNo next window).rcv.state.next = next := sub_add_cancel next 1

/-- The number it has sent up to. -/
theorem eager_ackNo (ackNo next : BitVec 32) (window : BitVec 16) :
    (eager ackNo next window).send.state.seqNrNext = ackNo := sub_add_cancel ackNo 1

/-- **A segment with RST and SYN clear is acceptable somewhere**, whatever its
length and its sequence number.

The window is the one that every `tcb_t` is made with, unless the length of the
text is a multiple of `2 ^ 16`, so that the program takes it to be empty: then
a closed window is needed, since at the end of the number space no open window
holds SEG.SEQ.  RCV.NXT is SEG.SEQ, unless the window ends at zero there, which
is the one edge that the test does not let pass. -/
theorem exists_acceptable {seg : Segment} (hRST : seg.tcph.RST = false)
    (hSYN : seg.tcph.SYN = false) :
    ∃ next window, next ≤ seg.tcph.seqNo ∧
      (eager seg.tcph.ackNo next window).reachesAckStep seg = true := by
  have hcheck (next : BitVec 32) (window : BitVec 16) :
      (eager seg.tcph.ackNo next window).reachesAckStep seg =
        (eager seg.tcph.ackNo next window).tcpCheckSegment seg.tcph
          (BitVec.ofNat 16 seg.text.length) := by
    simp [reachesAckStep, hRST, hSYN]
  by_cases hlen : BitVec.ofNat 16 seg.text.length = 0#16
  · refine ⟨seg.tcph.seqNo, 0, BitVec.le_refl _, ?_⟩
    rw [hcheck]
    simp [tcpCheckSegment, hlen, eager, established, create, TcpState.synchronized]
  · obtain ⟨next, hle, hedge⟩ : ∃ next, next ≤ seg.tcph.seqNo ∧
        ¬ next + rcvWindow.setWidth 32 = 0#32 := by
      by_cases hzero : seg.tcph.seqNo + rcvWindow.setWidth 32 = 0#32
      · refine ⟨seg.tcph.seqNo - 1, ?_, ?_⟩
        · simp only [rcvWindow] at hzero
          bv_omega
        · simp only [rcvWindow] at hzero ⊢
          bv_omega
      · exact ⟨seg.tcph.seqNo, BitVec.le_refl _, hzero⟩
    refine ⟨next, rcvWindow, hle, ?_⟩
    rw [hcheck]
    have hopen : ¬ rcvWindow = 0#16 := by decide
    simp [tcpCheckSegment, hlen, hopen, hle, hedge, eager, established, create,
      TcpState.synchronized]

/-- Text without RST or SYN is taken by a connection that waits for it. -/
theorem process_ne_of_text {seg : Segment} (htext : seg.text ≠ []) (hRST : seg.tcph.RST = false)
    (hSYN : seg.tcph.SYN = false) :
    ∃ t, ∀ isn, process isn t seg ≠ .ok t := by
  obtain ⟨next, window, hle, hreach⟩ := exists_acceptable hRST hSYN
  have htakes : (eager seg.tcph.ackNo next window).acceptsText seg = true := by
    have hguard : (eager seg.tcph.ackNo next window).textGuard seg.tcph = true := by
      have hnat : next.toNat ≤ seg.tcph.seqNo.toNat := hle
      rw [textGuard, eager_next]
      simpa [eager, established, create, CircularBuffer.ofCapacity, CircularBuffer.size] using hnat
    rw [acceptsText, hguard, decide_eq_true (List.length_pos_iff.mpr htext)]
    rfl
  -- The acknowledgement of the segment changes nothing that the text step looks at.
  have hacked (pq : CircularBuffer Byte) (ackNo : BitVec 32) :
      (((eager seg.tcph.ackNo next window).ackData pq ackNo).ackNextState).acceptsText seg = true :=
    htakes
  have htaken {u u' u'' : Tcb} (hreaders : u.onDataReceive = [⟨1, 0⟩])
      (hyes : u.acceptsText seg = true) (htext : TextOutcome u seg u')
      (hfin : FinOutcome u' seg u'') : u''.onDataReceive = [] := by
    have hnone : u'.onDataReceive = [] := by
      cases htext with
      | ignored hno => rw [hyes] at hno; cases hno
      | appended _ hnone => cases hreaders.symm.trans hnone
      | delivered _ reader readers hwaiting =>
          obtain ⟨-, rfl⟩ := List.cons.inj (hreaders.symm.trans hwaiting)
          rfl
    cases hfin with
    | ignored => exact hnone
    | closed => exact hnone
    | finWait => exact hnone
  have hserved : ∀ isn t', process isn (eager seg.tcph.ackNo next window) seg = .ok t' →
      t'.onDataReceive = [] := by
    intro isn t' h
    cases process_cases h with
    | unchanged hno => rw [hreach] at hno; cases hno
    | passiveOpen hstate => cases hstate
    | activeOpen hstate => cases hstate
    | returned hsync hreach hack =>
        cases hack with
        | refused hACK hstate => cases hstate
        | unsent hACK hstate pq pq' hpq hhi =>
            rw [eager_ackNo] at hhi
            exact absurd hhi (BitVec.lt_irrefl _)
        | lastAck hACK hstate => cases hstate
    | continued hsync hreach hack hdelivery hfin =>
        cases hack with
        | absent hACK => exact htaken rfl htakes hdelivery hfin
        | data hACK hstate pq hpq => exact htaken rfl (hacked pq _) hdelivery hfin
        | accepted hACK hstate => cases hstate
        | timeWait hACK hstate => cases hstate
        | unsynchronized hACK hstate => cases hstate
  exact ⟨_, fun isn h => absurd (hserved isn _ h) (List.cons_ne_nil _ _)⟩

/-- A segment with text that every block ignores carries RST, and is no
SYN-ACK. -/
theorem process_ignored_iff {seg : Segment} (htext : seg.text ≠ []) :
    (∀ isn t, process isn t seg = .ok t) ↔
      seg.tcph.RST = true ∧ ¬ (seg.tcph.SYN = true ∧ seg.tcph.ACK = true) := by
  constructor
  · intro hall
    have hno : ¬ ∃ t, ∀ isn, process isn t seg ≠ .ok t := fun ⟨t, ht⟩ => ht 0 (hall 0 t)
    have hflags : ¬ (seg.tcph.SYN = true ∧ seg.tcph.ACK = true) :=
      fun h => hno (process_ne_of_synAck h.1 h.2)
    refine ⟨?_, hflags⟩
    by_contra hRST
    rw [Bool.not_eq_true] at hRST
    by_cases hSYN : seg.tcph.SYN = true
    · have hACK : seg.tcph.ACK = false := by simpa [hSYN] using hflags
      exact hno (process_ne_of_syn hRST hACK hSYN)
    · exact hno (process_ne_of_text htext hRST (by simpa using hSYN))
  · rintro ⟨hRST, hflags⟩ isn t
    have hreach : t.reachesAckStep seg = false := by simp [reachesAckStep, hRST]
    unfold process
    cases t.state <;> simp [tcpHandleListenState, tcpHandleSynSent, hRST, hreach, hflags]

/-- **A data offset is honoured exactly if it is valid**, up to segments that
nothing reacts to: every block takes options and text from where the data
offset says, and drops the segment if the data offset is not valid, if and only
if it is valid, or is below five in a segment that carries RST and is no
SYN-ACK. -/
theorem data_offset_honoured_iff {pktIn : RawTcpPacket} {tcph : TcpHeader} {rest : List Byte}
    (hread : TcpHeader.consumeFromNet pktIn.skb.payload = some (tcph, rest)) :
    (∀ isn t, HonoursOffset isn t pktIn tcph) ↔
      OffsetValid tcph pktIn.skb.payload.length ∨ (tcph.dataOffset.toNat < 5 ∧
        tcph.RST = true ∧ ¬ (tcph.SYN = true ∧ tcph.ACK = true)) := by
  have hlen := (TcpHeader.fixed_consumeFromNet.of_eq_some hread).1
  by_cases hvalid : OffsetValid tcph pktIn.skb.payload.length
  · refine iff_of_true (fun isn t => ?_) (.inl hvalid)
    have hfive : 5 ≤ tcph.dataOffset.toNat := by
      have h := hvalid.1
      simp only [TcpHeader.fixedSize] at h
      omega
    simp only [HonoursOffset, if_pos hvalid, processPkt]
    rw [RawTcpPacket.parse_of_le hread hfive hvalid.2]
    rfl
  · rw [or_iff_right hvalid]
    simp only [HonoursOffset, if_neg hvalid, processPkt]
    by_cases hfive : tcph.dataOffset.toNat < 5
    · -- Below five the head moves back into the header, whose end is read as text.
      obtain ⟨opts, hparse⟩ := RawTcpPacket.parse_of_lt hread hfive
      have htext : pktIn.skb.payload.drop (4 * tcph.dataOffset.toNat) ≠ [] := by
        rw [ne_eq, List.drop_eq_nil_iff]
        simp only [TcpHeader.fixedSize] at hlen
        omega
      have hignored :=
        @process_ignored_iff ⟨tcph, opts, pktIn.skb.payload.drop (4 * tcph.dataOffset.toNat)⟩ htext
      rw [hparse, and_iff_right hfive, ← hignored]
      refine forall_congr' fun isn => forall_congr' fun t => ?_
      change Except.mapError Sum.inr _ = _ ↔ _
      cases process isn t _ <;> simp [Except.mapError]
    · -- Past the end the assertion of `pop_front` fails, for every block.
      have hlong : pktIn.skb.payload.length < 4 * tcph.dataOffset.toNat := by
        by_contra hle
        refine hvalid ⟨?_, Nat.not_lt.mp hle⟩
        simp only [TcpHeader.fixedSize]
        omega
      rw [RawTcpPacket.parse_of_gt hread hlong]
      exact iff_of_false (fun h => by cases h 0 listening) fun h => hfive h.1

/-- A header from port 43776, whose first byte is `0xAB`, with data offset
`dataOffset`. -/
def offsetHeader (dataOffset : BitVec 4) : TcpHeader :=
  { TcpHeader.bare with srcPort := 0xAB00, dataOffset }

/-- The header with `body` behind it. -/
def offsetPkt (dataOffset : BitVec 4) (body : List Byte) : RawTcpPacket where
  proto := 0x06
  remoteEp := default
  localEp := default
  skb := ⟨[], (offsetHeader dataOffset).produceToNet ++ body, []⟩

/-- A peer whose next byte has number zero opens a connection to a block that
listens, and a read of one byte is issued in the connection callback. -/
def oneByteRead : List Event :=
  [.process ⟨{ TcpHeader.bare with SYN := true, seqNo := 0xFFFFFFFF, window := 500 }, [], []⟩,
    .process ⟨{ TcpHeader.bare with ACK := true, ackNo := 8 }, [], []⟩, .task 0 [.read 1 0]]

/-- A header of six words: one of options, and the text behind it. -/
theorem six_words_honoured :
    ∃ t, run 7 listening oneByteRead = .ok t ∧
      t.processPkt 7 (offsetPkt 6 [1, 1, 1, 0, 7])
        = (t.process 7 ⟨offsetHeader 6, [1, 1, 1, 0], [7]⟩).mapError Sum.inr := by
  refine ⟨_, rfl, ?_⟩
  have hread := (offsetHeader 6).consume_produce [1, 1, 1, 0, 7]
  have hhonours := (@data_offset_honoured_iff (offsetPkt 6 [1, 1, 1, 0, 7]) _ _ hread).mpr
    (.inl (by decide)) 7
  exact (hhonours _).trans (if_pos (by decide))

/-- With a data offset of zero, a reader of a block that the program reaches is
given the first byte of the header. -/
theorem header_byte_delivered :
    ∃ t t', run 7 listening oneByteRead = .ok t ∧ t.rcv.state.window = rcvWindow ∧
      t.send.pq ≠ none ∧
      TcpHeader.consumeFromNet (offsetPkt 0 []).skb.payload = some (offsetHeader 0, []) ∧
      t.processPkt 7 (offsetPkt 0 []) = .ok t' ∧ t'.trace.copied = [(0, [0xAB])] ∧
      ¬ HonoursOffset 7 t (offsetPkt 0 []) (offsetHeader 0) := by
  refine ⟨_, _, rfl, rfl, Option.some_ne_none _, rfl, rfl, rfl, fun h => ?_⟩
  have hcopied := congrArg (fun t => t.toOption.map fun t => t.trace.copied) h
  cases hcopied

end Tcb

end Mstack
