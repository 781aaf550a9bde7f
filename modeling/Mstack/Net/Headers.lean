import Mstack.Lib.BigEndian
import Mstack.Net.Skbuff

/-!
# Header layouts

The five headers of the stack and their `produce_to_net` / `consume_from_net`.
A producer is the list of bytes it writes at `ptr`; a consumer is a reader of
the bytes at `ptr`, which fails where the source would read past the end.

Every header has the same shape here: the structure with the members of the
source, in their order; its size; producer and consumer, field by field; and
`consume_produce`, that reading undoes writing.  A header with a checksum also
says what stands in front of that field, since the layers patch it into the
finished bytes.

### Translation

`utils::produce_to_net` and `utils::consume_from_net` are `BigEndian.put` and
`BigEndian.get`: the source swaps every field wider than a byte between host
and network order.  Bit fields that share a byte or a half-word are assembled
with the shifts of the source, and taken apart with its masks; a member
declared with thirteen bits is a `BitVec 13`, so that no value can be built
which the source cannot hold.

### Where the headers differ

* `ethernetv2_header_t` and `arpv4_header_t` are plain fields.
* `ipv4_header_t` packs version and header length into a byte, three flags and
  the fragment offset into a half-word.  The size is that of a header without
  options, and options are never written.
* `tcp_header_t` packs the data offset and eight flags into a half-word.  Its
  `reserved` nibble is read and **not written**: the round trip holds up to it,
  and `Net.Codec` says what that loses.
* `icmp_header_t` is that of an echo request and its reply.
-/

namespace Mstack

open BigEndian

/-- `mac_addr_t`, the first byte on the wire being the most significant. -/
abbrev MacAddr := BitVec 48

/-- `ipv4_addr_t`. -/
abbrev Ipv4Addr := BitVec 32

/-- `mac_addr_t::is_broadcast`: every byte is `0xff`. -/
def MacAddr.isBroadcast (mac : MacAddr) : Bool := mac == BitVec.allOnes 48

/-- `mac_addr_t::is_zero`, true of the address that a request leaves open. -/
def MacAddr.isZero (mac : MacAddr) : Bool := mac == 0

/-- A one-bit field, as the integer the source shifts. -/
def bit (b : Bool) : BitVec 16 := (BitVec.ofBool b).setWidth 16

/-! ## Ethernet

Destination first, as on the wire. -/

/-- `ethernetv2_header_t`. -/
structure EthernetHeader where
  dstMacAddr : MacAddr
  srcMacAddr : MacAddr
  proto : BitVec 16
  deriving DecidableEq, Repr

namespace EthernetHeader

/-- `ethernetv2_header_t::size()`. -/
def size : ℕ := 2 * 6 + 2

def produceToNet (h : EthernetHeader) : List Byte :=
  put h.dstMacAddr ++ put h.srcMacAddr ++ put h.proto

def consumeFromNet : BigEndian.Reader EthernetHeader := do
  let dstMacAddr ← get 48
  let srcMacAddr ← get 48
  let proto ← get 16
  return { dstMacAddr, srcMacAddr, proto }

/-- A header is as long as its `size()` says. -/
@[simp] theorem length_produceToNet (h : EthernetHeader) : h.produceToNet.length = size := by
  simp [produceToNet, size]

/-- **The round trip of the Ethernet header**, with whatever follows it. -/
theorem consume_produce (h : EthernetHeader) (rest : List Byte) :
    consumeFromNet (h.produceToNet ++ rest) = some (h, rest) := by
  simp (disch := decide) only [consumeFromNet, produceToNet, List.append_assoc, get_bind_put]
  rfl

end EthernetHeader

/-! ## ARP

Hardware addresses of six bytes and protocol addresses of four; the two length
fields are read and not used to read what follows. -/

/-- `arpv4_header_t`. -/
structure ArpHeader where
  htype : BitVec 16
  ptype : BitVec 16
  hlen : BitVec 8
  plen : BitVec 8
  oper : BitVec 16
  sha : MacAddr
  spa : Ipv4Addr
  tha : MacAddr
  tpa : Ipv4Addr
  deriving DecidableEq, Repr

namespace ArpHeader

/-- `arpv4_header_t::size()`. -/
def size : ℕ := 2 + 2 + 1 + 1 + 2 + 6 * 2 + 4 * 2

def produceToNet (h : ArpHeader) : List Byte :=
  put h.htype ++ put h.ptype ++ put h.hlen ++ put h.plen ++ put h.oper ++ put h.sha ++
    put h.spa ++ put h.tha ++ put h.tpa

def consumeFromNet : BigEndian.Reader ArpHeader := do
  let htype ← get 16
  let ptype ← get 16
  let hlen ← get 8
  let plen ← get 8
  let oper ← get 16
  let sha ← get 48
  let spa ← get 32
  let tha ← get 48
  let tpa ← get 32
  return { htype, ptype, hlen, plen, oper, sha, spa, tha, tpa }

theorem fixed_consumeFromNet : Fixed size consumeFromNet := by
  have h : Fixed (16 / 8 + (16 / 8 + (8 / 8 + (8 / 8 + (16 / 8 + (48 / 8 + (32 / 8 +
      (48 / 8 + (32 / 8 + 0))))))))) consumeFromNet :=
    .get_bind fun _ => .get_bind fun _ => .get_bind fun _ => .get_bind fun _ => .get_bind fun _ =>
      .get_bind fun _ => .get_bind fun _ => .get_bind fun _ => .get_bind fun _ => .pure _
  exact h

@[simp] theorem length_produceToNet (h : ArpHeader) : h.produceToNet.length = size := by
  simp [produceToNet, size]

theorem consume_produce (h : ArpHeader) (rest : List Byte) :
    consumeFromNet (h.produceToNet ++ rest) = some (h, rest) := by
  simp (disch := decide) only [consumeFromNet, produceToNet, List.append_assoc, get_bind_put]
  rfl

end ArpHeader

/-! ## IPv4

The fixed twenty bytes.  `header_length` counts words of four bytes and may
announce options, which nobody reads. -/

/-- `ipv4_header_t`. -/
structure Ipv4Header where
  version : BitVec 4
  headerLength : BitVec 4
  tos : BitVec 8
  totalLength : BitVec 16
  id : BitVec 16
  NOP : Bool
  DF : Bool
  MF : Bool
  fragOffset : BitVec 13
  ttl : BitVec 8
  protoType : BitVec 8
  headerChsum : BitVec 16
  srcAddr : Ipv4Addr
  dstAddr : Ipv4Addr
  deriving DecidableEq, Repr

namespace Ipv4Header

/-- `ipv4_header_t::fixed_size()`, the length of a header without options. -/
def fixedSize : ℕ := 1 + 1 + 2 + 2 + 2 + 1 + 1 + 2 + 4 * 2

/-- `version << 4 | header_length`, as a `uint8_t`: the version in the high
nibble. -/
def versionLength (h : Ipv4Header) : BitVec 8 :=
  h.version.setWidth 8 <<< 4 ||| h.headerLength.setWidth 8

/-- `NOP << 15 | DF << 14 | MF << 13 | frag_offset`, as a `uint16_t`.  The
flags stand above the thirteen bits of the offset, so that nothing overlaps. -/
def flagsFragOffset (h : Ipv4Header) : BitVec 16 :=
  bit h.NOP <<< 15 ||| bit h.DF <<< 14 ||| bit h.MF <<< 13 ||| h.fragOffset.setWidth 16

def produceToNet (h : Ipv4Header) : List Byte :=
  put h.versionLength ++ put h.tos ++ put h.totalLength ++ put h.id ++ put h.flagsFragOffset ++
    put h.ttl ++ put h.protoType ++ put h.headerChsum ++ put h.srcAddr ++ put h.dstAddr

def consumeFromNet : BigEndian.Reader Ipv4Header := do
  let versionHeaderLength ← get 8
  let tos ← get 8
  let totalLength ← get 16
  let id ← get 16
  let flagsFragOffset ← get 16
  let ttl ← get 8
  let protoType ← get 8
  let headerChsum ← get 16
  let srcAddr ← get 32
  let dstAddr ← get 32
  return {
    version := (versionHeaderLength >>> 4).setWidth 4
    headerLength := versionHeaderLength.setWidth 4
    tos, totalLength, id
    NOP := flagsFragOffset.getLsbD 15
    DF := flagsFragOffset.getLsbD 14
    MF := flagsFragOffset.getLsbD 13
    fragOffset := flagsFragOffset.setWidth 13
    ttl, protoType, headerChsum, srcAddr, dstAddr }

@[simp] theorem length_produceToNet (h : Ipv4Header) : h.produceToNet.length = fixedSize := by
  simp [produceToNet, fixedSize]

/-- The shift brings the version back. -/
theorem version_versionLength (h : Ipv4Header) :
    (h.versionLength >>> 4).setWidth 4 = h.version := by
  ext i hi
  simp only [versionLength]
  interval_cases i <;> simp

/-- The mask brings the length back. -/
theorem headerLength_versionLength (h : Ipv4Header) :
    h.versionLength.setWidth 4 = h.headerLength := by
  ext i hi
  simp only [versionLength]
  interval_cases i <;> simp

/-- The low thirteen bits are the offset. -/
theorem fragOffset_flagsFragOffset (h : Ipv4Header) :
    h.flagsFragOffset.setWidth 13 = h.fragOffset := by
  ext i hi
  simp only [flagsFragOffset, bit]
  interval_cases i <;> simp

theorem consume_produce (h : Ipv4Header) (rest : List Byte) :
    consumeFromNet (h.produceToNet ++ rest) = some (h, rest) := by
  simp (disch := decide) only [consumeFromNet, produceToNet, List.append_assoc, get_bind_put,
    version_versionLength, headerLength_versionLength, fragOffset_flagsFragOffset]
  simp [flagsFragOffset, bit, pure, StateT.pure]

theorem fixed_consumeFromNet : Fixed fixedSize consumeFromNet := by
  have h : Fixed (8 / 8 + (8 / 8 + (16 / 8 + (16 / 8 + (16 / 8 + (8 / 8 + (8 / 8 + (16 / 8 +
      (32 / 8 + (32 / 8 + 0)))))))))) consumeFromNet :=
    .get_bind fun _ => .get_bind fun _ => .get_bind fun _ => .get_bind fun _ => .get_bind fun _ =>
      .get_bind fun _ => .get_bind fun _ => .get_bind fun _ => .get_bind fun _ =>
        .get_bind fun _ => .pure _
  exact h

/-- The first byte shows the version in its high nibble: what
`ipv4::make_packet` tests before it reads the header. -/
theorem headD_produceToNet (h : Ipv4Header) (rest : List Byte) :
    ((h.produceToNet ++ rest).headD 0 >>> 4) &&& 0xf = h.version.setWidth 8 := by
  have hfirst : (h.produceToNet ++ rest).headD 0 = h.versionLength := by
    simp only [produceToNet, put_byte, List.append_assoc, List.cons_append, List.headD_cons]
  rw [hfirst]
  ext i hi
  simp only [versionLength]
  interval_cases i <;> simp

/-- The same for a header that was read. -/
theorem headD_of_consume {bs rest : List Byte} {h : Ipv4Header}
    (hread : consumeFromNet bs = some (h, rest)) :
    (bs.headD 0 >>> 4) &&& 0xf = h.version.setWidth 8 := by
  -- The nine fields behind the first byte have no part in the version.
  have hversion : h.version
      = (BitVec.ofNat 8 (decode (bs.take (8 / 8))) >>> 4).setWidth 4 := by
    refine (?_ : Yields (fun h' : Ipv4Header => h'.version
      = (BitVec.ofNat 8 (decode (bs.take (8 / 8))) >>> 4).setWidth 4) _) _ h rest
        (get_bind_eq_some hread)
    exact .get_bind fun _ => .get_bind fun _ => .get_bind fun _ => .get_bind fun _ =>
      .get_bind fun _ => .get_bind fun _ => .get_bind fun _ => .get_bind fun _ =>
        .get_bind fun _ => .pure rfl
  have hlen := (fixed_consumeFromNet.of_eq_some hread).1
  cases bs with
  | nil => cases hlen
  | cons b bs =>
      have hfirst : BitVec.ofNat 8 (decode ((b :: bs).take (8 / 8))) = b := by
        simp [decode]
      rw [hversion, hfirst, List.headD_cons]
      ext i hi
      interval_cases i <;> simp

/-- What stands before the checksum field, at
`offsetof(ipv4_header_t, header_chsum)`. -/
def beforeChsum (h : Ipv4Header) : List Byte :=
  put h.versionLength ++ put h.tos ++ put h.totalLength ++ put h.id ++ put h.flagsFragOffset ++
    put h.ttl ++ put h.protoType

@[simp] theorem length_beforeChsum (h : Ipv4Header) : h.beforeChsum.length = 10 := by
  simp [beforeChsum]

theorem produceToNet_eq (h : Ipv4Header) (rest : List Byte) :
    h.produceToNet ++ rest
      = h.beforeChsum ++ (put h.headerChsum ++ (put h.srcAddr ++ put h.dstAddr ++ rest)) := by
  simp only [produceToNet, beforeChsum, List.append_assoc]

end Ipv4Header

/-! ## TCP

`data_offset` counts words of four bytes, and what lies between the fixed
twenty bytes and it are the options (`Tcp.Options`). -/

namespace TcpHeader

/-- The half-word of `data_offset` and the flags.  `reserved` is not written. -/
def offsetFlags (h : TcpHeader) : BitVec 16 :=
  h.dataOffset.setWidth 16 <<< 12 ||| bit h.CWR <<< 7 ||| bit h.ECE <<< 6 |||
    bit h.URG <<< 5 ||| bit h.ACK <<< 4 ||| bit h.PSH <<< 3 ||| bit h.RST <<< 2 |||
    bit h.SYN <<< 1 ||| bit h.FIN

def produceToNet (h : TcpHeader) : List Byte :=
  put h.srcPort ++ put h.dstPort ++ put h.seqNo ++ put h.ackNo ++ put h.offsetFlags ++
    put h.window ++ put h.chsum ++ put h.urgentPointer

def consumeFromNet : BigEndian.Reader TcpHeader := do
  let srcPort ← get 16
  let dstPort ← get 16
  let seqNo ← get 32
  let ackNo ← get 32
  let headerLengthFlags ← get 16
  let window ← get 16
  let chsum ← get 16
  let urgentPointer ← get 16
  return {
    srcPort, dstPort, seqNo, ackNo
    dataOffset := (headerLengthFlags >>> 12).setWidth 4
    reserved := (headerLengthFlags >>> 8).setWidth 4
    CWR := headerLengthFlags.getLsbD 7
    ECE := headerLengthFlags.getLsbD 6
    URG := headerLengthFlags.getLsbD 5
    ACK := headerLengthFlags.getLsbD 4
    PSH := headerLengthFlags.getLsbD 3
    RST := headerLengthFlags.getLsbD 2
    SYN := headerLengthFlags.getLsbD 1
    FIN := headerLengthFlags.getLsbD 0
    window, chsum, urgentPointer }

@[simp] theorem length_produceToNet (h : TcpHeader) : h.produceToNet.length = fixedSize := by
  simp [produceToNet, fixedSize]

/-- The high nibble is the data offset. -/
theorem dataOffset_offsetFlags (h : TcpHeader) :
    (h.offsetFlags >>> 12).setWidth 4 = h.dataOffset := by
  ext i hi
  simp only [offsetFlags, bit]
  interval_cases i <;> simp

/-- The nibble below it is not written, and reads as zero. -/
theorem reserved_offsetFlags (h : TcpHeader) : (h.offsetFlags >>> 8).setWidth 4 = 0#4 := by
  ext i hi
  simp only [offsetFlags, bit]
  interval_cases i <;> simp

/-- **The TCP header round trip**, up to the nibble that is not written. -/
theorem consume_produce (h : TcpHeader) (rest : List Byte) :
    consumeFromNet (h.produceToNet ++ rest) = some ({ h with reserved := 0 }, rest) := by
  simp (disch := decide) only [consumeFromNet, produceToNet, List.append_assoc, get_bind_put,
    dataOffset_offsetFlags, reserved_offsetFlags]
  simp [offsetFlags, bit, pure, StateT.pure]

theorem fixed_consumeFromNet : Fixed fixedSize consumeFromNet := by
  have h : Fixed (16 / 8 + (16 / 8 + (32 / 8 + (32 / 8 + (16 / 8 + (16 / 8 + (16 / 8 +
      (16 / 8 + 0)))))))) consumeFromNet :=
    .get_bind fun _ => .get_bind fun _ => .get_bind fun _ => .get_bind fun _ => .get_bind fun _ =>
      .get_bind fun _ => .get_bind fun _ => .get_bind fun _ => .pure _
  exact h

/-- What stands before the checksum field, at `offsetof(tcp_header_t, chsum)`. -/
def beforeChsum (h : TcpHeader) : List Byte :=
  put h.srcPort ++ put h.dstPort ++ put h.seqNo ++ put h.ackNo ++ put h.offsetFlags ++
    put h.window

@[simp] theorem length_beforeChsum (h : TcpHeader) : h.beforeChsum.length = 16 := by
  simp [beforeChsum]

theorem produceToNet_eq (h : TcpHeader) (rest : List Byte) :
    h.produceToNet ++ rest = h.beforeChsum ++ (put h.chsum ++ (put h.urgentPointer ++ rest)) := by
  simp only [produceToNet, beforeChsum, List.append_assoc]

end TcpHeader

/-! ## ICMP

The layout of an echo message. -/

/-- `icmp_header_t`. -/
structure IcmpHeader where
  protoType : BitVec 8
  code : BitVec 8
  chsum : BitVec 16
  id : BitVec 16
  seq : BitVec 16
  deriving DecidableEq, Repr

namespace IcmpHeader

/-- `icmp_header_t::size()`. -/
def size : ℕ := 8

def produceToNet (h : IcmpHeader) : List Byte :=
  put h.protoType ++ put h.code ++ put h.chsum ++ put h.id ++ put h.seq

def consumeFromNet : BigEndian.Reader IcmpHeader := do
  let protoType ← get 8
  let code ← get 8
  let chsum ← get 16
  let id ← get 16
  let seq ← get 16
  return { protoType, code, chsum, id, seq }

@[simp] theorem length_produceToNet (h : IcmpHeader) : h.produceToNet.length = size := by
  simp [produceToNet, size]

theorem consume_produce (h : IcmpHeader) (rest : List Byte) :
    consumeFromNet (h.produceToNet ++ rest) = some (h, rest) := by
  simp (disch := decide) only [consumeFromNet, produceToNet, List.append_assoc, get_bind_put]
  rfl

theorem fixed_consumeFromNet : Fixed size consumeFromNet := by
  have h : Fixed (8 / 8 + (8 / 8 + (16 / 8 + (16 / 8 + (16 / 8 + 0))))) consumeFromNet :=
    .get_bind fun _ => .get_bind fun _ => .get_bind fun _ => .get_bind fun _ => .get_bind fun _ =>
      .pure _
  exact h

/-- What stands before the checksum field, at `offsetof(icmp_header_t,
chsum)`. -/
def beforeChsum (h : IcmpHeader) : List Byte := put h.protoType ++ put h.code

@[simp] theorem length_beforeChsum (h : IcmpHeader) : h.beforeChsum.length = 2 := by
  simp [beforeChsum]

theorem produceToNet_eq (h : IcmpHeader) (rest : List Byte) :
    h.produceToNet ++ rest = h.beforeChsum ++ (put h.chsum ++ (put h.id ++ put h.seq ++ rest)) := by
  simp only [produceToNet, beforeChsum, List.append_assoc]

end IcmpHeader

end Mstack
