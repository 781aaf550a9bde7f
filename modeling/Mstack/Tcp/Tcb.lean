import Mstack.Lib.EventSystem
import Mstack.Lib.CircularBuffer
import Mstack.Lib.SerialNumber
import Mstack.Tcp.Options

/-!
# The transmission control block

`tcb_t` as a record, and every member function of `tcb.cpp` except `process`.

A member function becomes a function on the record.  `Except Fault` stands for
a debug build that may abort.  What the object reaches through its two
references is part of the record:

* `ioCtx` — the handlers posted to `io_ctx_` that have not run;
* `mngr` — the packets handed to `mngr_.enqueue`, oldest first.

### What the environment decides

Three values the code leaves to its environment are parameters: the ISN that
`std::random_device` returns, the indeterminate contents of the members the
constructor does not initialise, and what the application does inside a
callback.  A theorem about all values of them is a theorem about all
environments.  The second of them matters: `send_.state.mss` is not
initialised, and on an active open it is set only if the SYN-ACK brings an MSS,
which the SYN-ACK of this program does not.

### History

`Trace` holds history variables: buffers the application passed to
`async_write`, bytes copied into reader buffers, callbacks invoked, segment
texts that passed the guard of the segment-text step, values assigned to
`state_`, bounds passed to `std::clamp`.  The functions append to it where the
source performs the action; no function reads it.

### What is load-bearing

* **The send queue may be missing.**  `send_.pq` is a null `unique_ptr` until
  the peer's SYN has announced a window, and most functions dereference it.  It
  is an `Option`, and `sendPq` is the dereference.
* **A state is changed in two steps.**  A step of `process` writes
  `next_state_`; `make_packet` copies it to `state_`, whatever the packet is
  for.  So building a packet is a change of state, and which packets are built
  decides which states are entered (`Tcp.Control`, `Tcp.Diagram`).
* **Counters and sizes meet.**  `app_data_unacknowleged` is the minimum of a
  queue size and a difference of two 32-bit counters, taken in 32 bits and
  widened afterwards.  `appDataUnacknowleged` does the same.
* **The send loop has no bound in the source.**  Here it has fuel, as much as
  the queue has bytes and one more; `Tcp.Spec` shows that it ends before that.
-/

namespace Mstack

/-- The identity of a `std::function` supplied by the application.  What such a
function does is not part of a block: it is part of the event in which its
handler runs (`Tcp.Event`). -/
abbrev CallbackId := ℕ

/-- Handlers that `tcb_t` posts to its `io_context`.  What a handler captures
is part of it. -/
inductive Task where
  /-- `listen_finish`: invoke `on_connection_established_`. -/
  | connectionEstablished
  /-- Completion of a read of `len` bytes: `cb(len)`, then
  `make_and_send_pkt()`. -/
  | readDone (cb : CallbackId) (len : ℕ)
  /-- Completion of a write of `len` bytes: `cb({}, len)`. -/
  | writeDone (cb : CallbackId) (len : ℕ)
  /-- `while (has_app_data_to_send()) make_and_send_pkt();` -/
  | sendLoop
  deriving DecidableEq, Repr

/-- A callback the application has seen, with the byte count it was given. -/
inductive Called where
  | connectionEstablished
  | read (cb : CallbackId) (nbytes : ℕ)
  | write (cb : CallbackId) (nbytes : ℕ)
  deriving DecidableEq, Repr

/-- An element of `on_data_receive_`: the size of the reader's span, and its
callback. -/
structure Reader where
  size : ℕ
  cb : CallbackId
  deriving DecidableEq, Repr

/-- History variables; see the module comment.  `copied` has the bytes that
went to each read, in the order in which they were copied, and `called` what
the callbacks were told: between the two lies a handler that has to run. -/
structure Trace where
  written : List (List Byte) := []
  copied : List (CallbackId × List Byte) := []
  called : List Called := []
  acceptedText : List (List Byte) := []
  states : List TcpState := []
  clamps : List (BitVec 32 × BitVec 32) := []
  deriving DecidableEq, Repr

/-- `send::state`, the members that some function reads.  The constructor
initialises none of them, so a new block has them from its environment. -/
structure SendState where
  seqNrUnack : BitVec 32
  seqNrNext : BitVec 32
  window : BitVec 16
  mss : BitVec 16
  deriving DecidableEq, Repr, Inhabited

/-- `send`.  `pq` is a null `unique_ptr` until the peer's window is known, and
has the capacity of that window from then on. -/
structure Send where
  state : SendState
  pq : Option (CircularBuffer Byte)
  deriving DecidableEq, Repr

/-- `receive::state`. -/
structure ReceiveState where
  next : BitVec 32
  window : BitVec 16
  mss : BitVec 16
  deriving DecidableEq, Repr, Inhabited

/-- `receive`.  Unlike the send queue, `pq` is there from the constructor on,
with room for the window that every packet announces. -/
structure Receive where
  state : ReceiveState
  pq : CircularBuffer Byte
  deriving DecidableEq, Repr

/-- `tcb_t`.  `ioCtx` and `mngr` stand for its two references, and `trace` for
nothing in the source.  The callback of the connection is not a member here;
that it is there is asserted by the constructor, and a manager keeps it beside
the block (`Net.Manager`). -/
structure Tcb where
  ioCtx : List Task
  mngr : List TcpPacket
  remoteEp : Endpoint
  localEp : Endpoint
  state : TcpState
  nextState : TcpState
  onDataReceive : List Reader
  send : Send
  rcv : Receive
  trace : Trace
  deriving DecidableEq, Repr

namespace Tcb

/-- The receive window every `tcb_t` is constructed with, and the capacity of
its receive queue. -/
def rcvWindow : BitVec 16 := 0xFAF0

/-- The constructor.  `junkSend` and `junkRcv` are the indeterminate values of
the members it does not write. -/
def create (remoteEp localEp : Endpoint) (state nextState : TcpState)
    (junkSend : SendState) (junkRcv : ReceiveState) : Tcb where
  ioCtx := []
  mngr := []
  remoteEp := remoteEp
  localEp := localEp
  state := state
  nextState := nextState
  onDataReceive := []
  send := { state := junkSend, pq := none }
  rcv :=
    { state := { junkRcv with window := rcvWindow }
      pq := CircularBuffer.ofCapacity rcvWindow.toNat }
  trace := {}

/-! ## Primitive effects

What a statement of the source does to the record. -/

/-- `io_ctx_.post(task)`. -/
def post (t : Tcb) (task : Task) : Tcb := { t with ioCtx := t.ioCtx ++ [task] }

/-- `tcb_t::enqueue`: `mngr_.enqueue(pkt)`. -/
def enqueue (t : Tcb) (pkt : TcpPacket) : Tcb := { t with mngr := t.mngr ++ [pkt] }

/-- `state_ = s`. -/
def setState (t : Tcb) (s : TcpState) : Tcb :=
  { t with state := s, trace := { t.trace with states := t.trace.states ++ [s] } }

/-- `next_state_ = s`. -/
def setNextState (t : Tcb) (s : TcpState) : Tcb := { t with nextState := s }

/-- `*send_.pq`, which is undefined while the pointer is null. -/
def sendPq (t : Tcb) : Except Fault (CircularBuffer Byte) :=
  match t.send.pq with
  | none => .error .nullSendQueue
  | some pq => .ok pq

/-- Copy `bytes` into the buffer of the read whose callback is `cb`.  The
buffer belongs to the application; what it gets is recorded. -/
def copyToReader (t : Tcb) (cb : CallbackId) (bytes : List Byte) : Tcb :=
  { t with trace := { t.trace with copied := t.trace.copied ++ [(cb, bytes)] } }

/-- Invoke a callback of the application.  Only that it is invoked, and with
what; what the application does inside comes with the event. -/
def call (t : Tcb) (c : Called) : Tcb :=
  { t with trace := { t.trace with called := t.trace.called ++ [c] } }

/-- `send_.state.seq_nr_unack = std::clamp(ackNo, SND.UNA, SND.NXT)`.  The
bounds are recorded, since crossed bounds are undefined. -/
def clampUnack (t : Tcb) (ackNo : BitVec 32) : Tcb :=
  let lo := t.send.state.seqNrUnack
  let hi := t.send.state.seqNrNext
  { t with
    send := { t.send with
      state := { t.send.state with seqNrUnack := SerialNumber.clamp ackNo lo hi } }
    trace := { t.trace with clamps := t.trace.clamps ++ [(lo, hi)] } }

/-! ## The send side

From a write to a packet, and the loop that makes packets. -/

/-- `app_data_unacknowleged`, for the queue `pq`.  The difference of the two
counters is taken in 32 bits and then widened. -/
def appDataUnacknowleged (t : Tcb) (pq : CircularBuffer Byte) : ℕ :=
  min pq.size (t.send.state.seqNrNext - t.send.state.seqNrUnack).toNat

/-- `app_data_to_send_left`, for the queue `pq`. -/
def appDataToSendLeft (t : Tcb) (pq : CircularBuffer Byte) : ℕ :=
  min t.send.state.mss.toNat (pq.size - t.appDataUnacknowleged pq)

/-- `has_app_data_to_send`.  An MSS of zero makes it false, whatever the queue
holds. -/
def hasAppDataToSend (t : Tcb) : Except Fault Bool := do
  let pq ← t.sendPq
  return 0 ≠ t.appDataToSendLeft pq

/-- The header `make_packet` writes for a segment of `segLen` bytes.  A segment
with text has the number of its first byte; one without has SND.UNA, and not
SND.NXT.  SYN is set in the state in which the SYN-ACK is sent, and FIN never. -/
def outTcp (t : Tcb) (segLen : ℕ) : TcpHeader where
  srcPort := t.localEp.addrv4Port
  dstPort := t.remoteEp.addrv4Port
  seqNo := if 0 = segLen then t.send.state.seqNrUnack else t.send.state.seqNrNext
  ackNo := t.rcv.state.next
  dataOffset := BitVec.ofNat 4 (TcpHeader.fixedSize >>> 2)
  reserved := 0
  CWR := false
  ECE := false
  URG := false
  ACK := true
  PSH := 0 < segLen
  RST := false
  SYN := TcpState.synReceived = t.nextState
  FIN := false
  window := t.rcv.state.window
  chsum := 0
  urgentPointer := 0

/-- `if (next_state_ != state_) state_ =
next_state_;`, at the end of `make_packet`.  The second phase of a change of
state.  Three places of the source need none, as they assign both members. -/
def applyNextState (t : Tcb) : Tcb :=
  if t.nextState ≠ t.state then t.setState t.nextState else t

/-- `make_packet`: a segment with the next bytes to send, or an empty one if
there is nothing to send; and a pending change of state is carried out. -/
def makePacket (t : Tcb) : Except Fault (TcpPacket × Tcb) := do
  let pq ← t.sendPq
  let segLen := t.appDataToSendLeft pq
  if t.appDataUnacknowleged pq + segLen > pq.size then .error .packetRange
  else
    let text := (pq.data.drop (t.appDataUnacknowleged pq)).take segLen
    let pkt : TcpPacket :=
      { proto := 0x06
        remoteEp := t.remoteEp
        localEp := t.localEp
        skb := { tcph := t.outTcp segLen, opts := [], text := text } }
    let t := { t with send := { t.send with state := { t.send.state with
      seqNrNext := t.send.state.seqNrNext + BitVec.ofNat 32 segLen } } }
    return (pkt, t.applyNextState)

/-- `make_and_send_pkt`. -/
def makeAndSendPkt (t : Tcb) : Except Fault Tcb := do
  let (pkt, t) ← t.makePacket
  return t.enqueue pkt

/-- `while (has_app_data_to_send()) make_and_send_pkt();`, for at most `fuel`
iterations. -/
def sendLoopFuel : ℕ → Tcb → Except Fault Tcb
  | 0, t => .ok t
  | fuel + 1, t => do
      if ← t.hasAppDataToSend then sendLoopFuel fuel (← t.makeAndSendPkt)
      else return t

/-- The send loop.  Every iteration sends at least one byte of the queue and no
iteration adds one, so the queue's size bounds the number of iterations. -/
def sendLoop (t : Tcb) : Except Fault Tcb := do
  let pq ← t.sendPq
  sendLoopFuel (pq.size + 1) t

/-- `enqueue_app_data`: a write goes to the send queue, if it fits, and the
send loop is posted. -/
def enqueueAppData (t : Tcb) (pkt : List Byte) : Except Fault Tcb := do
  let pq ← t.sendPq
  if pq.size + pkt.length > pq.capacity then .error .sendQueueCapacity
  else
    let t := { t with send := { t.send with pq := some (pq.insertEnd pkt) } }
    return t.post .sendLoop

/-- `async_write`: the completion is posted behind the send loop, and says that
all of the buffer was written. -/
def asyncWrite (t : Tcb) (buf : List Byte) (cb : CallbackId) : Except Fault Tcb := do
  let t := { t with trace := { t.trace with written := t.trace.written ++ [buf] } }
  let t ← t.enqueueAppData buf
  return t.post (.writeDone cb buf.length)

/-! ## The receive side

A read is served at once from the queue, or waits. -/

/-- `rcv_.state.next += n`. -/
def advanceRcvNext (t : Tcb) (n : ℕ) : Tcb :=
  { t with rcv := { t.rcv with state := { t.rcv.state with
    next := t.rcv.state.next + BitVec.ofNat 32 n } } }

/-- `async_read_some`, for a span of `size` bytes: buffered bytes are copied
out at once and the completion is posted, and without any the reader waits. -/
def asyncReadSome (t : Tcb) (size : ℕ) (cb : CallbackId) : Tcb :=
  if !t.rcv.pq.empty then
    let n := min t.rcv.pq.size size
    let t := t.copyToReader cb (t.rcv.pq.data.take n)
    let t := { t with rcv := { t.rcv with pq := t.rcv.pq.eraseBegin n } }
    (t.advanceRcvNext n).post (.readDone cb n)
  else { t with onDataReceive := t.onDataReceive ++ [⟨size, cb⟩] }

/-! ## Opening

The two ways in which a connection begins to speak. -/

/-- `listen_finish`: the connection callback is posted.  It will be called with
the two endpoints and a weak pointer to the block, from which on the
application can make calls. -/
def listenFinish (t : Tcb) : Tcb := t.post .connectionEstablished

/-- `start_connecting`; `isn` is the value of `generate_isn()`.  The SYN is
made by hand, not by `make_packet`, since there is no send queue yet. -/
def startConnecting (t : Tcb) (isn : BitVec 32) : Except Fault Tcb := do
  let t := { t with rcv := { t.rcv with state := { t.rcv.state with mss := 1446 } } }
  let opts : List TcpOption := [.mss t.rcv.state.mss, .nop, .nop, .sack]
  let encoded ← encodeOptions (List.replicate 8 0) opts
  let outTcp : TcpHeader :=
    { srcPort := t.localEp.addrv4Port
      dstPort := t.remoteEp.addrv4Port
      seqNo := isn
      ackNo := 0
      dataOffset := BitVec.ofNat 4 ((TcpHeader.fixedSize + 8) >>> 2)
      reserved := 0
      CWR := false
      ECE := false
      URG := false
      ACK := false
      PSH := false
      RST := false
      SYN := true
      FIN := false
      window := t.rcv.state.window
      chsum := 0
      urgentPointer := 0 }
  let t := { t with send := { t.send with state := { t.send.state with
    seqNrUnack := isn, seqNrNext := isn + 1 } } }
  let t := (t.setState .synSent).setNextState .established
  return t.enqueue
    { proto := 0x06
      remoteEp := t.remoteEp
      localEp := t.localEp
      skb := { tcph := outTcp, opts := encoded, text := [] } }

end Tcb

end Mstack
