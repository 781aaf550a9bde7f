import Mathlib

/-!
# Segments, packets and connection states

The data model under `tcb.cpp`: the connection states of `defination.hpp`, the
header of `tcp_header.hpp`, and the packet that travels between a `tcb_t` and
its `tcb_manager`.

A `Segment` is an skb *after* `tcb_t::process` has split it (or before
`tcb_t::make_packet` has written it): header, options area and segment text.
The byte layout is a layer of its own (`Net.Headers`, `Net.Encapsulation`);
nothing in the state machine looks at it.

### Design

* Numbers of the protocol are bit vectors of their width.  They wrap where the
  source's do, and they are compared where the source compares them, as
  unsigned words.
* One-bit fields are `Bool`, the data offset and the reserved nibble four bits
  wide.  `reserved` is part of the header, since it is read from the wire, and
  no function looks at it.
* `TcpState` has the twelve enumerators, also those that no connection enters.
  Which ones it does enter is a theorem (`Tcp.Control`).

### Faults

`Fault` lists the ways in which `tcb.cpp` can stop a debug build: one for each
`assert`, and one for each access that the language leaves undefined.  A
function that may stop returns `Except Fault`, so that a run which stops has no
state behind it, and a theorem that says something of the state reached says
nothing of such a run.  What stops a run is a question of its own, and
`Tcp.Outcome` answers it.
-/

namespace Mstack

/-- `std::byte`. -/
abbrev Byte := BitVec 8

/-- The `kTCP…` enumerators of `defination.hpp`. -/
inductive TcpState where
  | closed
  | connecting
  | listen
  | synSent
  | synReceived
  | established
  | finWait1
  | finWait2
  | closeWait
  | closing
  | lastAck
  | timeWait
  deriving DecidableEq, Repr

/-- The eight states `tcb_t::tcp_check_segment` lists: SYN-RECEIVED and
everything the RFC calls synchronized.  In these `process` runs its numbered
steps. -/
def TcpState.synchronized : TcpState → Bool
  | .synReceived | .established | .finWait1 | .finWait2 | .closeWait | .closing
  | .lastAck | .timeWait => true
  | .closed | .connecting | .listen | .synSent => false

/-- `endpoint`: an IPv4 address and a port. -/
structure Endpoint where
  addrv4 : BitVec 32
  addrv4Port : BitVec 16
  deriving DecidableEq, Repr, Inhabited

/-- `tcp_header_t`.  One-bit fields are `Bool`. -/
structure TcpHeader where
  srcPort : BitVec 16
  dstPort : BitVec 16
  seqNo : BitVec 32
  ackNo : BitVec 32
  dataOffset : BitVec 4
  reserved : BitVec 4
  CWR : Bool
  ECE : Bool
  URG : Bool
  ACK : Bool
  PSH : Bool
  RST : Bool
  SYN : Bool
  FIN : Bool
  window : BitVec 16
  chsum : BitVec 16
  urgentPointer : BitVec 16
  deriving DecidableEq, Repr, Inhabited

/-- `tcp_header_t::fixed_size()`. -/
def TcpHeader.fixedSize : ℕ := 20

/-- The header of a segment without options: five words, nothing set. -/
def TcpHeader.bare : TcpHeader := { (default : TcpHeader) with dataOffset := 5 }

/-- What an skb holds once `process` has parsed it: header, options, text. -/
structure Segment where
  tcph : TcpHeader
  opts : List Byte
  text : List Byte
  deriving DecidableEq, Repr, Inhabited

/-- `tcp_packet`: a segment with the two endpoints it travels between, as the
block that sends or receives it sees them. -/
structure TcpPacket where
  proto : BitVec 8
  remoteEp : Endpoint
  localEp : Endpoint
  skb : Segment
  deriving DecidableEq, Repr

/-- The ways `tcb.cpp` can stop a debug build: a failed `assert`, or an access
the language leaves undefined.  The ones of the layers below are in
`Net.Skbuff`. -/
inductive Fault where
  /-- `send_.pq` is dereferenced before the peer's SYN created it. -/
  | nullSendQueue
  /-- A length `assert` in `decode_options`. -/
  | optionLength
  /-- `buf[3]` in `decode_options` is past the end of the span. -/
  | optionOutOfRange
  /-- A room `assert` in `encode_options`. -/
  | optionRoom
  /-- The capacity `assert` in `enqueue_app_data`. -/
  | sendQueueCapacity
  /-- The range `assert` in `make_packet`. -/
  | packetRange
  /-- The segment text step finds a waiting reader and buffered bytes. -/
  | readerWhileBuffered
  /-- The segment text step would exceed the capacity of `rcv_.pq`. -/
  | receiveQueueCapacity
  deriving DecidableEq, Repr

end Mstack
