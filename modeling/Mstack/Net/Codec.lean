import Mstack.Lib.StructLayout
import Mstack.Net.ByteOrder

/-!
# The header codecs

Reading a header undoes writing it, and writing undoes reading, for the four
headers that are written whole.  `tcp_header_t` is read with its reserved
nibble and written without it: `fullOffsetFlags` is the half-word that would be
written otherwise, and the two directions of the codec are compared through it.

The checksums of IPv4, TCP and ICMP are patched into the finished bytes at
`offsetof`, an offset in the struct as the compiler lays it out, not in the
format on the wire.  `layout` lists the members of each struct in order, with
their declared types.

* `Inverse` (from `Lib.BigEndian`) — a codec of `n` bytes, both directions.
* `inverse_up_to_reserved` — the TCP header, with what the nibble costs.
* `OnWireAt` — a field that lies at byte `k` of what is written.
* `header_codecs_inverse` — all of it together.

### Two layouts of one header

That a struct and its wire format agree byte by byte is an accident of
declarations, and two things could break it: padding between members, and bit
fields that the compiler packs otherwise than the shifts do.  Neither happens
before the checksum of any of the three headers.  `offsetOf` computes where the
compiler puts it (`Lib.StructLayout`), `OnWireAt` says where it is written, and
the theorem compares the two numbers.

### What is load-bearing

Writing what was read needs every bit of the read bytes to be in some member.
For IPv4 the two shared words are put together again by `nibbles` and `flags`,
statements about eight and sixteen bits.  For TCP four bits are lost, and the
loss is exact: `produceToNet_eq_fullBytes_iff`.
-/

namespace Mstack

open BigEndian StructLayout

/-! ## The two directions

Three headers of plain fields: the fields are read back one after the other,
and what was read spells the bytes it was read from. -/

/-- **The Ethernet codec.**  Two addresses as they are, and the type in network
order. -/
theorem EthernetHeader.inverse : Inverse size produceToNet consumeFromNet where
  length := length_produceToNet
  read_write := consume_produce
  write_read bs hlen := by
    have hfixed : Fixed (48 / 8 + (48 / 8 + (16 / 8 + 0))) consumeFromNet :=
      .get_bind fun _ => .get_bind fun _ => .get_bind fun _ => .pure _
    have hspells : Spells [] produceToNet consumeFromNet :=
      .get_bind rfl fun _ => .get_bind rfl fun _ => .get_bind rfl fun _ => .pure rfl
    exact hspells.exists_of_length hfixed hlen

/-- **The ARP codec.**  The members are in network order, and the MAC addresses
as they are. -/
theorem ArpHeader.inverse : Inverse size produceToNet consumeFromNet where
  length := length_produceToNet
  read_write := consume_produce
  write_read bs hlen := by
    have hspells : Spells [] produceToNet consumeFromNet :=
      .get_bind rfl fun _ => .get_bind rfl fun _ => .get_bind rfl fun _ => .get_bind rfl fun _ =>
        .get_bind rfl fun _ => .get_bind rfl fun _ => .get_bind rfl fun _ =>
          .get_bind rfl fun _ => .get_bind rfl fun _ => .pure rfl
    exact hspells.exists_of_length fixed_consumeFromNet hlen

/-- **The ICMP codec.**  Two octets and three words, all in network order, the
checksum among them. -/
theorem IcmpHeader.inverse : Inverse size produceToNet consumeFromNet where
  length := length_produceToNet
  read_write := consume_produce
  write_read bs hlen := by
    have hspells : Spells [] produceToNet consumeFromNet :=
      .get_bind rfl fun _ => .get_bind rfl fun _ => .get_bind rfl fun _ => .get_bind rfl fun _ =>
        .get_bind rfl fun _ => .pure rfl
    exact hspells.exists_of_length fixed_consumeFromNet hlen

namespace Ipv4Header

/-- The two nibbles of a byte, put together again. -/
theorem nibbles (b : BitVec 8) :
    ((b >>> 4).setWidth 4).setWidth 8 <<< 4 ||| (b.setWidth 4).setWidth 8 = b := by
  ext i hi
  interval_cases i <;> simp

/-- The three flags and the thirteen bits of a half-word, put together again. -/
theorem flags (x : BitVec 16) :
    bit (x.getLsbD 15) <<< 15 ||| bit (x.getLsbD 14) <<< 14 ||| bit (x.getLsbD 13) <<< 13 |||
      (x.setWidth 13).setWidth 16 = x := by
  ext i hi
  simp only [bit]
  interval_cases i <;> simp

/-- **The IPv4 codec.**  The two words that hold several members are taken
apart and put together again. -/
theorem inverse : Inverse fixedSize produceToNet consumeFromNet where
  length := length_produceToNet
  read_write := consume_produce
  write_read bs hlen := by
    have hspells : Spells [] produceToNet consumeFromNet := by
      refine .get_bind rfl fun b => .get_bind rfl fun _ => .get_bind rfl fun _ =>
        .get_bind rfl fun _ => .get_bind rfl fun x => .get_bind rfl fun _ => .get_bind rfl fun _ =>
          .get_bind rfl fun _ => .get_bind rfl fun _ => .get_bind rfl fun _ => .pure ?_
      rw [produceToNet, versionLength, flagsFragOffset, nibbles, flags, List.nil_append]
    exact hspells.exists_of_length fixed_consumeFromNet hlen

end Ipv4Header

/-! ## The reserved nibble of TCP

A receiver that forwards a header it has read, or computes a checksum over one,
must know that the nibble is gone. -/

namespace TcpHeader

/-- The half-word with the nibble that `produce_to_net` leaves out. -/
def fullOffsetFlags (h : TcpHeader) : BitVec 16 :=
  h.offsetFlags ||| h.reserved.setWidth 16 <<< 8

/-- The header with all its bits: what `produce_to_net` would write if it did
not leave out the nibble. -/
def fullBytes (h : TcpHeader) : List Byte :=
  put h.srcPort ++ put h.dstPort ++ put h.seqNo ++ put h.ackNo ++ put h.fullOffsetFlags ++
    put h.window ++ put h.chsum ++ put h.urgentPointer

/-- The bytes of a header without the reserved nibble, which is the low one of
the thirteenth byte. -/
def clearReserved (bs : List Byte) : List Byte := bs.modify 12 (· &&& 0xf0)

/-- Reading takes every bit of the half-word apart: put together again, they
are the half-word that was read. -/
theorem fullOffsetFlags_read (x : BitVec 16) :
    ((x >>> 12).setWidth 4).setWidth 16 <<< 12 ||| bit (x.getLsbD 7) <<< 7 |||
      bit (x.getLsbD 6) <<< 6 ||| bit (x.getLsbD 5) <<< 5 ||| bit (x.getLsbD 4) <<< 4 |||
      bit (x.getLsbD 3) <<< 3 ||| bit (x.getLsbD 2) <<< 2 ||| bit (x.getLsbD 1) <<< 1 |||
      bit (x.getLsbD 0) ||| ((x >>> 8).setWidth 4).setWidth 16 <<< 8 = x := by
  ext i hi
  simp only [bit]
  interval_cases i <;> simp

/-- What is read is what the full header is written as. -/
theorem spells_consumeFromNet : Spells [] fullBytes consumeFromNet := by
  refine .get_bind rfl fun _ => .get_bind rfl fun _ => .get_bind rfl fun _ => .get_bind rfl fun _ =>
    .get_bind rfl fun x => .get_bind rfl fun _ => .get_bind rfl fun _ => .get_bind rfl fun _ =>
      .pure ?_
  rw [fullBytes, fullOffsetFlags, offsetFlags, fullOffsetFlags_read, List.nil_append]

/-- A half-word on the wire, the high byte first. -/
theorem put_halfWord (x : BitVec 16) : put x = [(x >>> 8).setWidth 8, x.setWidth 8] := by
  have hhigh : BitVec.ofNat 8 (x.toNat / 256 ^ 1) = (x >>> 8).setWidth 8 := by
    apply BitVec.eq_of_toNat_eq
    rw [BitVec.toNat_ofNat, BitVec.toNat_setWidth, BitVec.toNat_ushiftRight,
      Nat.shiftRight_eq_div_pow]
    norm_num
  have hlow : BitVec.ofNat 8 (x.toNat / 256 ^ 0) = x.setWidth 8 := by
    apply BitVec.eq_of_toNat_eq
    rw [BitVec.toNat_ofNat, BitVec.toNat_setWidth, pow_zero, Nat.div_one]
  simp only [put, encode, hhigh, hlow]

/-- The first byte of the written half-word has no bit of the reserved nibble. -/
theorem high_offsetFlags (h : TcpHeader) :
    (h.offsetFlags >>> 8).setWidth 8
      = ((h.fullOffsetFlags >>> 8).setWidth 8 : Byte) &&& 0xf0 := by
  ext i hi
  simp only [fullOffsetFlags, offsetFlags, bit]
  interval_cases i <;> simp

/-- The second byte has nothing to do with it. -/
theorem low_offsetFlags (h : TcpHeader) :
    (h.offsetFlags.setWidth 8 : Byte) = h.fullOffsetFlags.setWidth 8 := by
  ext i hi
  simp only [fullOffsetFlags, offsetFlags, bit]
  interval_cases i <;> simp

/-- Changing the one byte behind a front of known length. -/
theorem modify_append_cons {α : Type} (f : α → α) (front : List α) (a : α) (back : List α) :
    (front ++ a :: back).modify front.length f = front ++ f a :: back := by
  induction front with
  | nil => rw [List.nil_append, List.length_nil, List.modify_zero_cons, List.nil_append]
  | cons b front ih =>
      rw [List.cons_append, List.length_cons, List.modify_succ_cons, ih, List.cons_append]

/-- What is written is the whole header with the nibble cleared. -/
theorem produceToNet_eq_clearReserved (h : TcpHeader) :
    h.produceToNet = clearReserved h.fullBytes := by
  have hfront : (put h.srcPort ++ put h.dstPort ++ put h.seqNo ++ put h.ackNo).length = 12 := by
    simp
  have hclear := modify_append_cons (· &&& 0xf0)
    (put h.srcPort ++ put h.dstPort ++ put h.seqNo ++ put h.ackNo)
    ((h.fullOffsetFlags >>> 8).setWidth 8 : Byte)
    (h.fullOffsetFlags.setWidth 8 :: (put h.window ++ put h.chsum ++ put h.urgentPointer))
  rw [hfront] at hclear
  rw [produceToNet, fullBytes, put_halfWord h.offsetFlags, put_halfWord h.fullOffsetFlags,
    high_offsetFlags, low_offsetFlags, clearReserved]
  simp only [List.append_assoc, List.cons_append, List.nil_append] at hclear ⊢
  exact hclear.symm

/-- The full half-word shows the nibble. -/
theorem reserved_fullOffsetFlags (h : TcpHeader) :
    (h.fullOffsetFlags >>> 8).setWidth 4 = h.reserved := by
  ext i hi
  simp only [fullOffsetFlags, offsetFlags, bit]
  interval_cases i <;> simp

/-- **Nothing is lost exactly if the nibble was zero.** -/
theorem produceToNet_eq_fullBytes_iff (h : TcpHeader) :
    h.produceToNet = h.fullBytes ↔ h.reserved = 0 := by
  constructor
  · intro hbytes
    simp only [produceToNet, fullBytes, List.append_assoc, List.append_cancel_left_eq] at hbytes
    have hput : put h.offsetFlags = put h.fullOffsetFlags := List.append_cancel_right hbytes
    have hflags : h.offsetFlags = h.fullOffsetFlags := put_injective rfl hput
    calc h.reserved = (h.fullOffsetFlags >>> 8).setWidth 4 := (reserved_fullOffsetFlags h).symm
      _ = (h.offsetFlags >>> 8).setWidth 4 := by rw [hflags]
      _ = 0 := reserved_offsetFlags h
  · intro hzero
    have hflags : h.fullOffsetFlags = h.offsetFlags := by
      rw [fullOffsetFlags, hzero]
      simp
    rw [produceToNet, fullBytes, hflags]

/-- **The TCP header codec.**  It is a codec up to the reserved nibble, and one
on the nose exactly where that is zero. -/
theorem inverse_up_to_reserved :
    (∀ h rest, consumeFromNet (produceToNet h ++ rest) = some ({ h with reserved := 0 }, rest)) ∧
    (∀ h, consumeFromNet (produceToNet h) = some (h, []) ↔ h.reserved = 0) ∧
    (∀ bs, bs.length = fixedSize → ∃ h, consumeFromNet bs = some (h, []) ∧
      produceToNet h = clearReserved bs ∧ (produceToNet h = bs ↔ h.reserved = 0)) := by
  refine ⟨consume_produce, fun h => ?_, fun bs hlen => ?_⟩
  · have hread := consume_produce h []
    rw [List.append_nil] at hread
    rw [hread, Option.some.injEq, Prod.mk.injEq]
    constructor
    · rintro ⟨heq, -⟩
      exact (congrArg TcpHeader.reserved heq).symm
    · intro hzero
      refine ⟨?_, rfl⟩
      rw [← hzero]
  · obtain ⟨h, hread, hbytes⟩ := spells_consumeFromNet.exists_of_length fixed_consumeFromNet hlen
    subst hbytes
    exact ⟨h, hread, produceToNet_eq_clearReserved h, produceToNet_eq_fullBytes_iff h⟩

end TcpHeader

/-! ## The structs

The members in the order of their declarations.  A bit field has its declared
type as unit, and stands where the one before it ends. -/

namespace Ipv4Header

/-- The members of `ipv4_header_t`. -/
inductive Field where
  | version | headerLength | tos | totalLength | id | NOP | DF | MF | fragOffset | ttl | protoType
  | headerChsum | srcAddr | dstAddr
  deriving DecidableEq, Repr

/-- Their declarations.  An `ipv4_addr_t` is a struct of one `uint32_t`. -/
def layout : List (Field × Member) :=
  [(.version, .bits 1 4), (.headerLength, .bits 1 4), (.tos, .plain 1 1),
    (.totalLength, .plain 2 2), (.id, .plain 2 2), (.NOP, .bits 2 1), (.DF, .bits 2 1),
    (.MF, .bits 2 1), (.fragOffset, .bits 2 13), (.ttl, .plain 1 1), (.protoType, .plain 1 1),
    (.headerChsum, .plain 2 2), (.srcAddr, .plain 4 4), (.dstAddr, .plain 4 4)]

end Ipv4Header

namespace TcpHeader

/-- The members of `tcp_header_t`. -/
inductive Field where
  | srcPort | dstPort | seqNo | ackNo | dataOffset | reserved | CWR | ECE | URG | ACK | PSH | RST
  | SYN | FIN | window | chsum | urgentPointer
  deriving DecidableEq, Repr

/-- Their declarations. -/
def layout : List (Field × Member) :=
  [(.srcPort, .plain 2 2), (.dstPort, .plain 2 2), (.seqNo, .plain 4 4), (.ackNo, .plain 4 4),
    (.dataOffset, .bits 2 4), (.reserved, .bits 2 4), (.CWR, .bits 2 1), (.ECE, .bits 2 1),
    (.URG, .bits 2 1), (.ACK, .bits 2 1), (.PSH, .bits 2 1), (.RST, .bits 2 1), (.SYN, .bits 2 1),
    (.FIN, .bits 2 1), (.window, .plain 2 2), (.chsum, .plain 2 2), (.urgentPointer, .plain 2 2)]

end TcpHeader

namespace IcmpHeader

/-- The members of `icmp_header_t`. -/
inductive Field where
  | protoType | code | chsum | id | seq
  deriving DecidableEq, Repr

/-- Their declarations. -/
def layout : List (Field × Member) :=
  [(.protoType, .plain 1 1), (.code, .plain 1 1), (.chsum, .plain 2 2), (.id, .plain 2 2),
    (.seq, .plain 2 2)]

end IcmpHeader

/-- The field that `setChsum` changes stands at byte `k` on the wire: storing a
value there, in the bytes of a header, gives the bytes of the header with that
value. -/
def OnWireAt {H : Type} (produce : H → List Byte) (setChsum : H → BitVec 16 → H) (k : ℕ) : Prop :=
  ∀ h x, produce (setChsum h x) = (produce h).take k ++ put x ++ (produce h).drop (k + 2)

/-- A field that follows `k` bytes which do not depend on it lies at byte `k`. -/
theorem OnWireAt.of_append {H : Type} {produce : H → List Byte} {setChsum : H → BitVec 16 → H}
    {chsum : H → BitVec 16} {front back : H → List Byte} {k : ℕ}
    (hsplit : ∀ h, produce h = front h ++ (put (chsum h) ++ back h))
    (hlen : ∀ h, (front h).length = k) (hfront : ∀ h x, front (setChsum h x) = front h)
    (hchsum : ∀ h x, chsum (setChsum h x) = x) (hback : ∀ h x, back (setChsum h x) = back h) :
    OnWireAt produce setChsum k := by
  intro h x
  have hlen2 : k + 2 = (front h ++ put (chsum h)).length := by
    rw [List.length_append, hlen, length_put]
  have htake : (produce h).take k = front h := by rw [hsplit, ← hlen h, List.take_left]
  have hdrop : (produce h).drop (k + 2) = back h := by
    rw [hsplit, hlen2, ← List.append_assoc, List.drop_left]
  rw [htake, hdrop, hsplit, hfront, hchsum, hback, List.append_assoc]

/-- `header_chsum` lies behind ten bytes. -/
theorem Ipv4Header.onWireAt : OnWireAt produceToNet (fun h x => { h with headerChsum := x }) 10 :=
  .of_append (fun h => by simpa using produceToNet_eq h []) length_beforeChsum (fun _ _ => rfl)
    (fun _ _ => rfl) fun _ _ => rfl

/-- `chsum` lies behind sixteen bytes. -/
theorem TcpHeader.onWireAt : OnWireAt produceToNet (fun h x => { h with chsum := x }) 16 :=
  .of_append (fun h => by simpa using produceToNet_eq h []) length_beforeChsum (fun _ _ => rfl)
    (fun _ _ => rfl) fun _ _ => rfl

/-- `chsum` lies behind two bytes. -/
theorem IcmpHeader.onWireAt : OnWireAt produceToNet (fun h x => { h with chsum := x }) 2 :=
  .of_append (fun h => by simpa using produceToNet_eq h []) length_beforeChsum (fun _ _ => rfl)
    (fun _ _ => rfl) fun _ _ => rfl

/-! ## The joint statement -/

/-- **The header codecs.**  Each direction undoes the other, for TCP up to the
reserved nibble, and each checksum lies on the wire where it lies in the
struct.

For every header and every list of bytes of the right length: nothing is
assumed of the values, so a header that makes no sense comes back as it was. -/
theorem header_codecs_inverse :
    Inverse EthernetHeader.size EthernetHeader.produceToNet EthernetHeader.consumeFromNet ∧
    Inverse ArpHeader.size ArpHeader.produceToNet ArpHeader.consumeFromNet ∧
    Inverse Ipv4Header.fixedSize Ipv4Header.produceToNet Ipv4Header.consumeFromNet ∧
    Inverse IcmpHeader.size IcmpHeader.produceToNet IcmpHeader.consumeFromNet ∧
    ((∀ (h : TcpHeader) rest, TcpHeader.consumeFromNet (h.produceToNet ++ rest)
        = some ({ h with reserved := 0 }, rest)) ∧
      (∀ h : TcpHeader, TcpHeader.consumeFromNet h.produceToNet = some (h, []) ↔ h.reserved = 0) ∧
      (∀ bs, bs.length = TcpHeader.fixedSize → ∃ h, TcpHeader.consumeFromNet bs = some (h, []) ∧
        h.produceToNet = TcpHeader.clearReserved bs ∧
        (h.produceToNet = bs ↔ h.reserved = 0))) ∧
    (offsetOf Ipv4Header.layout .headerChsum = some 10 ∧
      OnWireAt Ipv4Header.produceToNet (fun h x => { h with headerChsum := x }) 10) ∧
    (offsetOf TcpHeader.layout .chsum = some 16 ∧
      OnWireAt TcpHeader.produceToNet (fun h x => { h with chsum := x }) 16) ∧
    (offsetOf IcmpHeader.layout .chsum = some 2 ∧
      OnWireAt IcmpHeader.produceToNet (fun h x => { h with chsum := x }) 2) :=
  ⟨EthernetHeader.inverse, ArpHeader.inverse, Ipv4Header.inverse, IcmpHeader.inverse,
    TcpHeader.inverse_up_to_reserved, ⟨rfl, Ipv4Header.onWireAt⟩, ⟨rfl, TcpHeader.onWireAt⟩,
    ⟨rfl, IcmpHeader.onWireAt⟩⟩

/-- `fixed_size()` and `size()` of TCP and ICMP are `sizeof`: no padding. -/
theorem size_layout :
    StructLayout.size TcpHeader.layout = TcpHeader.fixedSize ∧
    StructLayout.size IcmpHeader.layout = IcmpHeader.size := by
  decide

end Mstack
