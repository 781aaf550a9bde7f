import Mstack.Tcp.Tcb

/-!
# `tcb_t::process`

The RFC 793 "segment arrives" procedure, step by step as the source has it.
Each numbered step of `process` is a definition; a step that may `return`
answers with a `Flow`.

1. sequence number — `tcpCheckSegment`; 2.  RST — the segment is dropped,
   whatever the state;
3. security — nothing is done; 4.  SYN — the segment is dropped; 5.  ACK —
   `ackStep`; 6.  URG — nothing is done;
7. text — `textStep`; 8.  FIN — `finStep`.

The three handlers for CLOSED, LISTEN and SYN-SENT return `true` on every path,
so `process` returns right after the one it calls.

### Where the source does something of its own

The comments of the source restate the RFC; the code beside them sometimes does
not.  The definitions here follow the code, and the difference is the subject
of a module each:

* `tcpCheckSegment` — one bound is missing its comparison
  (`Tcp.Acceptability`);
* `tcpHandleSynSent` — the ISN itself passes the range test, and RST is looked
  at too late (`Tcp.Handshake`, `Tcp.Reset`);
* `ackData` — the number of acknowledged bytes is a difference that may wrap
  (`Tcp.SendQueue`);
* `textGuard` — only a lower bound is tested (`Tcp.InOrder`);
* `finStep` — its cases fall through (`Tcp.Diagram`), and it does not ask
  whether the FIN is next in line (`Tcp.InOrder`).

No later proof unfolds these definitions.  `Tcp.Outcome` says once what each of
them can do.
-/

namespace Mstack

/-- How a step of `process` ends: with `return`, or by going on to the next
step. -/
inductive Flow where
  | ret (t : Tcb)
  | next (t : Tcb)
  deriving DecidableEq, Repr

/-- The block at the end of a step, whether `process` returns there or goes
on. -/
def Flow.block : Flow → Tcb
  | .ret t => t
  | .next t => t

namespace Tcb

/-- The assignments of `tcp_handle_listen_state` for a SYN, before its packet.
The send queue is made here, with the peer's window as capacity. -/
def acceptSyn (isn : BitVec 32) (t : Tcb) (seg : Segment) (opts : List TcpOption) : Tcb :=
  { t with
    rcv := { t.rcv with state := { t.rcv.state with next := seg.tcph.seqNo + 1 } }
    send :=
      { state :=
          { seqNrUnack := isn
            seqNrNext := isn + 1
            window := seg.tcph.window
            mss := applyMss t.send.state.mss opts }
        pq := some (CircularBuffer.ofCapacity seg.tcph.window.toNat) }
    nextState := .synReceived }

/-- `tcp_handle_listen_state`; `isn` is the value of `generate_isn()`.  Only a
SYN without ACK and RST has an effect. -/
def tcpHandleListenState (isn : BitVec 32) (t : Tcb) (seg : Segment) : Except Fault Tcb :=
  if seg.tcph.RST then .ok t
  else if seg.tcph.ACK then .ok t
  else if seg.tcph.SYN then do
    let opts ← decodeOptions seg.opts
    (t.acceptSyn isn seg opts).makeAndSendPkt
  else .ok t

/-- The assignments of `tcp_handle_syn_sent` for an acceptable SYN-ACK, before
its packet. -/
def acceptSynAck (t : Tcb) (seg : Segment) (opts : List TcpOption) : Tcb :=
  let t := { t with
    rcv := { t.rcv with state := { t.rcv.state with next := seg.tcph.seqNo + 1 } }
    send :=
      { state :=
          { seqNrUnack := seg.tcph.ackNo
            seqNrNext := t.send.state.seqNrNext
            window := seg.tcph.window
            mss := applyMss t.send.state.mss opts }
        pq := some (CircularBuffer.ofCapacity seg.tcph.window.toNat) } }
  (t.setState .established).setNextState .established

/-- `tcp_handle_syn_sent`: the range of SEG.ACK is tested first, then SYN and
ACK open the connection, and RST comes last. -/
def tcpHandleSynSent (t : Tcb) (seg : Segment) : Except Fault Tcb :=
  if seg.tcph.SYN && seg.tcph.ACK then
    if ¬ seg.tcph.ackNo < t.send.state.seqNrUnack ∧
        ¬ seg.tcph.ackNo > t.send.state.seqNrNext then do
      let opts ← decodeOptions seg.opts
      let t ← (t.acceptSynAck seg opts).makeAndSendPkt
      return t.listenFinish
    else .ok t
  else .ok t

/-- `tcp_check_segment`.  In the last row of the table the upper bound of the
first disjunct is not a comparison: `rcv_.state.next + rcv_.state.window`
stands there as a truth value. -/
def tcpCheckSegment (t : Tcb) (tcph : TcpHeader) (seglen : BitVec 16) : Bool :=
  let next := t.rcv.state.next
  let window := t.rcv.state.window.setWidth 32
  let len := seglen.setWidth 32
  if t.state.synchronized then
    if seglen = 0 ∧ t.rcv.state.window = 0 then tcph.seqNo = next
    else if seglen = 0 ∧ t.rcv.state.window > 0 then
      next ≤ tcph.seqNo ∧ tcph.seqNo < next + window
    else if seglen > 0 ∧ t.rcv.state.window = 0 then false
    else
      (next ≤ tcph.seqNo ∧ next + window ≠ 0) ∨
        (next ≤ tcph.seqNo + len - 1 ∧ tcph.seqNo + len - 1 < next + window)
  else false

/-- `send_.pq->erase_begin(…)` followed by the assignment to SND.UNA: the block
after an acknowledgement, for the queue `pq`. -/
def ackData (t : Tcb) (pq : CircularBuffer Byte) (ackNo : BitVec 32) : Tcb :=
  let n := min pq.size (ackNo - t.send.state.seqNrUnack).toNat
  { t with send := { t.send with pq := some (pq.eraseBegin n) } }.clampUnack ackNo

/-- The assignments to `next_state_` behind it.  They concern the two states in
which our own FIN may be acknowledged, and no connection enters these. -/
def ackNextState (t : Tcb) : Tcb :=
  let t := if t.state = .finWait1 then t.setNextState .finWait2 else t
  if t.state = .closing then t.setNextState .timeWait else t

/-- `case kTCPEstablished:` to `case kTCPClosing:` of the fifth step.  The
queue is cut and SND.UNA moved *before* the number is compared with SND.NXT; a
number beyond it is then answered with a packet, and the segment is dropped. -/
def ackEstablished (t : Tcb) (ackNo : BitVec 32) : Except Fault Flow := do
  let pq ← t.sendPq
  let t := t.ackData pq ackNo
  if ackNo > t.send.state.seqNrNext then return .ret (← t.makeAndSendPkt)
  else return .next t.ackNextState

/-- `case kTCPSynReceived:` of the fifth step, for an acceptable number. -/
def ackSyn (t : Tcb) (ackNo : BitVec 32) : Tcb :=
  (((t.clampUnack ackNo).setState .established).setNextState .established).listenFinish

/-- Fifth step: check the ACK field.  The state decides between the range test
of SYN-RECEIVED, the acknowledgement of data, and the end of a connection. -/
def ackStep (t : Tcb) (seg : Segment) : Except Fault Flow :=
  if ¬ seg.tcph.ACK then .ok (.next t)
  else
    match t.state with
    | .synReceived =>
        if t.send.state.seqNrUnack ≤ seg.tcph.ackNo ∧
            seg.tcph.ackNo ≤ t.send.state.seqNrNext then
          .ok (.next (t.ackSyn seg.tcph.ackNo))
        else .ok (.ret t)
    | .established | .finWait1 | .finWait2 | .closeWait | .closing =>
        t.ackEstablished seg.tcph.ackNo
    | .lastAck => .ok (.ret (t.setNextState .closed))
    | .timeWait => do return .next (← t.makeAndSendPkt)
    | .closed | .connecting | .listen | .synSent => .ok (.next t)

/-- The guard of the segment-text step.  `rcv_.pq->size()` is a `size_t`, so
the sum is not reduced to 32 bits. -/
def textGuard (t : Tcb) (tcph : TcpHeader) : Bool :=
  ¬ tcph.seqNo.toNat < t.rcv.state.next.toNat + t.rcv.pq.size

/-- Hand the front of a segment to the reader that waits longest and keep the
rest. -/
def deliverToReader (t : Tcb) (reader : Reader) (readers : List Reader) (text : List Byte) :
    Except Fault Tcb :=
  if ¬ t.rcv.pq.empty then .error .readerWhileBuffered
  else
    let n := min text.length reader.size
    let t := { t with onDataReceive := readers }
    let t := (t.copyToReader reader.cb (text.take n)).advanceRcvNext n
    let pq := (t.rcv.pq.resize (text.length - n) 0).overwrite 0 (text.drop n)
    let t := { t with rcv := { t.rcv with pq := pq } }
    .ok (t.post (.readDone reader.cb n))

/-- Append a segment to the receive queue, whole.  The assertion asks for the
room; the capacity stays. -/
def appendToQueue (t : Tcb) (text : List Byte) : Except Fault Tcb :=
  if t.rcv.pq.size + text.length > t.rcv.pq.capacity then .error .receiveQueueCapacity
  else
    let pq := (t.rcv.pq.resize (t.rcv.pq.size + text.length) 0).overwrite t.rcv.pq.size text
    .ok { t with rcv := { t.rcv with pq := pq } }

/-- `case kTCPEstablished:` to `case kTCPFinWait_2:` of the seventh step, once
the guard holds. -/
def acceptText (t : Tcb) (text : List Byte) : Except Fault Tcb :=
  let t := { t with trace := { t.trace with
    acceptedText := t.trace.acceptedText ++ [text] } }
  match t.onDataReceive with
  | reader :: readers => t.deliverToReader reader readers text
  | [] => t.appendToQueue text

/-- Seventh step: process the segment text.  Outside of ESTABLISHED and the two
states behind it, text is ignored. -/
def textStep (t : Tcb) (seg : Segment) : Except Fault Tcb :=
  if 0 < seg.text.length then
    match t.state with
    | .established | .finWait1 | .finWait2 =>
        if t.textGuard seg.tcph then t.acceptText seg.text else .ok t
    | _ => .ok t
  else .ok t

/-- `case kTCPFinWait_2:` of the eighth step. -/
def finWait2Case (t : Tcb) : Tcb := t.setNextState .timeWait

/-- `case kTCPFinWait_1:` of the eighth step, which falls through. -/
def finWait1Case (t : Tcb) : Tcb :=
  finWait2Case (if t.nextState = .finWait2 then t.setNextState .timeWait
    else t.setNextState .closing)

/-- `case kTCPSynReceived: case kTCPEstablished:` of the eighth step, which
falls through. -/
def establishedCase (t : Tcb) : Except Fault Tcb := do
  let t ← ((t.advanceRcvNext 1).setNextState .closeWait).makeAndSendPkt
  return t.finWait1Case

/-- Eighth step: check the FIN bit.  The sequence number of the FIN is not
compared with anything. -/
def finStep (t : Tcb) (seg : Segment) : Except Fault Tcb :=
  if seg.tcph.FIN then
    match t.state with
    | .synReceived | .established => t.establishedCase
    | .finWait1 => .ok t.finWait1Case
    | .finWait2 => .ok t.finWait2Case
    | _ => .ok t
  else .ok t

/-- Steps one to four: the segment passes the sequence check and carries
neither RST nor SYN.  A segment that does not is dropped without an answer. -/
def reachesAckStep (t : Tcb) (seg : Segment) : Bool :=
  t.tcpCheckSegment seg.tcph (BitVec.ofNat 16 seg.text.length) && !seg.tcph.RST &&
    !seg.tcph.SYN

/-- Steps five to eight, of which six is empty: URG is not looked at. -/
def acceptSegment (t : Tcb) (seg : Segment) : Except Fault Tcb := do
  match ← t.ackStep seg with
  | .ret t => return t
  -- The sixth step, the URG bit, has no effect in any state.
  | .next t => (← t.textStep seg).finStep seg

/-- `process`, once header, options and text are split; `isn` is the value a
call of `generate_isn()` would return.  One of the handlers for a state without
a peer, or the numbered steps. -/
def process (isn : BitVec 32) (t : Tcb) (seg : Segment) : Except Fault Tcb :=
  match t.state with
  | .closed => .ok t
  | .listen => t.tcpHandleListenState isn seg
  | .synSent => t.tcpHandleSynSent seg
  | _ => if t.reachesAckStep seg then t.acceptSegment seg else .ok t

end Tcb

end Mstack
