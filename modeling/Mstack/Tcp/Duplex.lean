import Mstack.Tcp.Handshake

/-!
# Two blocks

A client opened by `start_connecting` and a server in LISTEN, joined by one
lossless FIFO channel per direction.

The channel out of a block is its `mngr`: the packets it has handed to its
manager and that have not been delivered.  A delivery takes the oldest one and
has the other block process it; everything else that happens is local to one
block.  So a run of the two blocks is an interleaving of deliveries and local
events, and a theorem about all runs is one about all interleavings.

### The handshake

`handshake_completes_iff` runs the three-way handshake over all pairs of ISNs.
Three comparisons decide, and none of them is modular:

* SYN-SENT tests ISN =< SEG.ACK =< ISN + 1 for the client's number;
* the window test of SYN-RECEIVED compares with RCV.NXT + RCV.WND, which starts
  at the client's number plus one;
* SYN-RECEIVED tests the same range as SYN-SENT for the server's number.

So it completes **exactly** for those ISNs next to which nothing wraps.
Elsewhere the segment is dropped, and as there are no retransmissions the
connection never opens.

### Outline

`process_syn`, `process_synAck` and `process_ack` say what the three segments
do, for any block in the right state; `SynSent`, `SynReceived` and `Fresh` are
the blocks between them.  The result chains the three and uses each closed form
in both directions.  `Fresh` is where the results about data begin
(`Tcp.Integrity`).
-/

namespace Mstack

open Tcb
open EventSystem (bind_eq_ok Admitted)

/-- A client and a server. -/
structure Duplex where
  client : Tcb
  server : Tcb
  deriving DecidableEq, Repr

namespace Duplex

/-- A delivery, or an event local to one block. -/
inductive Event where
  | toServer
  | toClient
  | client (e : Mstack.Event)
  | server (e : Mstack.Event)
  deriving DecidableEq, Repr

/-- One event; `isn` is the number the server draws. -/
def step (isn : BitVec 32) (d : Duplex) : Event → Except Fault Duplex
  | .toServer =>
      match d.client.mngr with
      | [] => .ok d
      | pkt :: rest => do
          let server ← d.server.process isn pkt.skb
          return { client := { d.client with mngr := rest }, server := server }
  | .toClient =>
      match d.server.mngr with
      | [] => .ok d
      | pkt :: rest => do
          let client ← d.client.process isn pkt.skb
          return { client := client, server := { d.server with mngr := rest } }
  | .client e => do return { d with client := ← Tcb.step isn d.client e }
  | .server e => do return { d with server := ← Tcb.step isn d.server e }

/-- A run of the two blocks. -/
def run (isn : BitVec 32) (d : Duplex) (es : List Event) : Except Fault Duplex :=
  EventSystem.run (step isn) d es

/-- **The two blocks at the start.**  The client has sent its SYN with the
number `isnA`.  Nothing is assumed of the members the constructor leaves alone,
the client's send MSS among them: it stays as it was unless a SYN-ACK brings an
MSS. -/
inductive Connecting (isnA : BitVec 32) : Duplex → Prop where
  | mk (remoteEp localEp remoteEp' localEp' : Endpoint) (junkSend junkSend' : SendState)
      (junkRcv junkRcv' : ReceiveState) {client : Tcb}
      (h : (create remoteEp localEp .connecting .connecting junkSend junkRcv).startConnecting
        isnA = .ok client) :
      Connecting isnA
        ⟨client, create remoteEp' localEp' .listen .listen junkSend' junkRcv'⟩

end Duplex

namespace Tcb

/-! ## The three segments

For any block in the right state, with the comparisons left open. -/

/-- The options of a SYN announce an MSS of 1446. -/
theorem decodeOptions_syn :
    decodeOptions [kMSS, 4, 0x05, 0xA6, kNOP, kNOP, kSACK, 2] = .ok [.mss 1446] := by decide

/-- The first segment: a SYN arrives in LISTEN. -/
theorem process_syn {isn : BitVec 32} {t : Tcb} {seg : Segment} {opts : List TcpOption}
    (hstate : t.state = .listen) (hRST : seg.tcph.RST = false) (hACK : seg.tcph.ACK = false)
    (hSYN : seg.tcph.SYN = true) (hopts : decodeOptions seg.opts = .ok opts) :
    t.process isn seg = .ok ((t.acceptSyn isn seg opts).afterPacket
      (CircularBuffer.ofCapacity seg.tcph.window.toNat)) := by
  unfold process
  rw [hstate]
  simp only [tcpHandleListenState, hRST, hACK, hSYN, hopts, Bool.false_eq_true, if_false, if_true,
    EventSystem.ok_bind]
  exact makeAndSendPkt_ok.mpr ⟨_, rfl, rfl⟩

/-- The second segment: a SYN-ACK arrives in SYN-SENT. -/
theorem process_synAck (isn : BitVec 32) {t : Tcb} {seg : Segment} {opts : List TcpOption}
    (hstate : t.state = .synSent) (hACK : seg.tcph.ACK = true) (hSYN : seg.tcph.SYN = true)
    (hopts : decodeOptions seg.opts = .ok opts) :
    t.process isn seg =
      if t.send.state.seqNrUnack ≤ seg.tcph.ackNo ∧ seg.tcph.ackNo ≤ t.send.state.seqNrNext then
        .ok ((t.acceptSynAck seg opts).afterPacket
          (CircularBuffer.ofCapacity seg.tcph.window.toNat)).listenFinish
      else .ok t := by
  have hsend : (t.acceptSynAck seg opts).makeAndSendPkt =
      .ok ((t.acceptSynAck seg opts).afterPacket
        (CircularBuffer.ofCapacity seg.tcph.window.toNat)) :=
    makeAndSendPkt_ok.mpr ⟨_, rfl, rfl⟩
  unfold process
  rw [hstate]
  simp only [tcpHandleSynSent, hACK, hSYN, hopts, hsend, Bool.and_self, if_true,
    EventSystem.ok_bind, BitVec.not_lt, gt_iff_lt]
  rfl

/-- The third segment: an empty segment arrives in SYN-RECEIVED. -/
theorem process_ack (isn : BitVec 32) {t : Tcb} {seg : Segment} (hstate : t.state = .synReceived)
    (hACK : seg.tcph.ACK = true) (hSYN : seg.tcph.SYN = false) (hRST : seg.tcph.RST = false)
    (hFIN : seg.tcph.FIN = false) (htext : seg.text = []) :
    t.process isn seg =
      if t.tcpCheckSegment seg.tcph 0 = true ∧
          t.send.state.seqNrUnack ≤ seg.tcph.ackNo ∧ seg.tcph.ackNo ≤ t.send.state.seqNrNext then
        .ok (t.ackSyn seg.tcph.ackNo)
      else .ok t := by
  have hreach : t.reachesAckStep seg = t.tcpCheckSegment seg.tcph 0 := by
    have hzero : BitVec.ofNat 16 seg.text.length = 0 := by rw [htext]; rfl
    rw [reachesAckStep, hzero, hRST, hSYN, Bool.not_false, Bool.and_true, Bool.and_true]
  rw [process_of_synchronized (by rw [hstate]; rfl), hreach]
  by_cases hcheck : t.tcpCheckSegment seg.tcph 0 = true
  · rw [if_pos hcheck]
    by_cases hrange : t.send.state.seqNrUnack ≤ seg.tcph.ackNo ∧
        seg.tcph.ackNo ≤ t.send.state.seqNrNext
    · rw [if_pos ⟨hcheck, hrange⟩]
      simp [acceptSegment, ackStep, textStep, finStep, hACK, hstate, hrange, htext, hFIN]
    · rw [if_neg fun h => hrange h.2]
      simp [acceptSegment, ackStep, hACK, hstate, hrange, pure, Except.pure]
  · rw [if_neg hcheck, if_neg fun h => hcheck h.1]

/-! ## The blocks during the handshake

What each side looks like before, between and behind the three segments. -/

/-- Nothing has been read, written or posted, and the receive side is as
constructed. -/
structure Quiet (t : Tcb) : Prop where
  ioCtx : t.ioCtx = []
  called : t.trace.called = []
  written : t.trace.written = []
  copied : t.trace.copied = []
  readers : t.onDataReceive = []
  window : t.rcv.state.window = rcvWindow
  data : t.rcv.pq.data = []
  capacity : t.rcv.pq.capacity = rcvWindow.toNat

theorem quiet_create (remoteEp localEp : Endpoint) (state nextState : TcpState)
    (junkSend : SendState) (junkRcv : ReceiveState) :
    Quiet (create remoteEp localEp state nextState junkSend junkRcv) :=
  ⟨rfl, rfl, rfl, rfl, rfl, rfl, rfl, rfl⟩

/-- An empty send queue for the window that every block announces. -/
def EmptyQueue (t : Tcb) : Prop :=
  t.send.pq = some (CircularBuffer.ofCapacity rcvWindow.toNat)

/-- The client, waiting for the SYN-ACK. -/
structure SynSent (isn : BitVec 32) (t : Tcb) : Prop extends Quiet t where
  state : t.state = .synSent
  unack : t.send.state.seqNrUnack = isn
  next : t.send.state.seqNrNext = isn + 1
  pq : t.send.pq = none

/-- The server, waiting for the ACK of its SYN. -/
structure SynReceived (isn base : BitVec 32) (t : Tcb) : Prop extends Quiet t where
  state : t.state = .synReceived
  unack : t.send.state.seqNrUnack = isn
  next : t.send.state.seqNrNext = isn + 1
  rcvNext : t.rcv.state.next = base
  pq : EmptyQueue t

/-- A block that has just come through the handshake.  `base` is the number of
the first byte it will send, `base'` that of the first it will receive. -/
structure Fresh (base base' : BitVec 32) (t : Tcb) : Prop where
  state : t.state = .established
  nextState : t.nextState = .established
  unack : t.send.state.seqNrUnack = base
  next : t.send.state.seqNrNext = base
  rcvNext : t.rcv.state.next = base'
  pq : EmptyQueue t
  posted : t.ioCtx = [.connectionEstablished]
  called : t.trace.called = []
  written : t.trace.written = []
  copied : t.trace.copied = []
  readers : t.onDataReceive = []
  window : t.rcv.state.window = rcvWindow
  data : t.rcv.pq.data = []
  capacity : t.rcv.pq.capacity = rcvWindow.toNat

theorem SynSent.setMngr {isn : BitVec 32} {t : Tcb} (h : SynSent isn t) (m : List TcpPacket) :
    SynSent isn { t with mngr := m } :=
  ⟨⟨h.ioCtx, h.called, h.written, h.copied, h.readers, h.window, h.data, h.capacity⟩, h.state,
    h.unack, h.next, h.pq⟩

theorem SynReceived.setMngr {isn base : BitVec 32} {t : Tcb} (h : SynReceived isn base t)
    (m : List TcpPacket) : SynReceived isn base { t with mngr := m } :=
  ⟨⟨h.ioCtx, h.called, h.written, h.copied, h.readers, h.window, h.data, h.capacity⟩, h.state,
    h.unack, h.next, h.rcvNext, h.pq⟩

theorem synSent_afterConnect (isn : BitVec 32) (remoteEp localEp : Endpoint)
    (junkSend : SendState) (junkRcv : ReceiveState) :
    SynSent isn ((create remoteEp localEp .connecting .connecting junkSend junkRcv).afterConnect
      isn) :=
  ⟨⟨rfl, rfl, rfl, rfl, rfl, rfl, rfl, rfl⟩, rfl, rfl, rfl, rfl⟩

/-- A packet out of an empty queue, with the given numbers. -/
structure Bare (seqNo ackNo : BitVec 32) (pkt : TcpPacket) : Prop where
  seqNo : pkt.skb.tcph.seqNo = seqNo
  ackNo : pkt.skb.tcph.ackNo = ackNo
  ACK : pkt.skb.tcph.ACK = true
  RST : pkt.skb.tcph.RST = false
  FIN : pkt.skb.tcph.FIN = false
  window : pkt.skb.tcph.window = rcvWindow
  opts : pkt.skb.opts = []
  text : pkt.skb.text = []

theorem bare_packetOut (t : Tcb) {pq : CircularBuffer Byte} (hempty : pq.data = [])
    (hwindow : t.rcv.state.window = rcvWindow) :
    Bare t.send.state.seqNrUnack t.rcv.state.next (t.packetOut pq) := by
  have hzero : t.appDataToSendLeft pq = 0 := appDataToSendLeft_of_empty hempty
  refine ⟨?_, rfl, rfl, rfl, rfl, hwindow, rfl, ?_⟩
  · rw [packetOut_seqNo, if_pos hzero]
  · rw [packetOut_text, hzero, List.take_zero]

/-- **The SYN.**  LISTEN takes it whatever its number is.  The server's
counters start at its own ISN, RCV.NXT at the client's plus one, and a SYN-ACK
without options is on its way. -/
theorem process_syn_quiet (isnA isnB : BitVec 32) {t s : Tcb} (ht : Quiet t)
    (hstate : t.state = .listen) (hs : s.rcv.state.window = rcvWindow) :
    ∃ t' pkt, t.process isnB (s.synOut isnA).skb = .ok t' ∧ SynReceived isnB (isnA + 1) t' ∧
      t'.mngr = t.mngr ++ [pkt] ∧ Bare isnB (isnA + 1) pkt ∧ pkt.skb.tcph.SYN = true := by
  have hwindow : (s.synOut isnA).skb.tcph.window = rcvWindow := hs
  refine ⟨_, _, process_syn hstate rfl rfl rfl decodeOptions_syn, ?_, rfl, ?_, rfl⟩
  · refine ⟨⟨ht.ioCtx, ht.called, ht.written, ht.copied, ht.readers, ht.window, ht.data,
      ht.capacity⟩, rfl, rfl, ?_, rfl, ?_⟩
    · rw [afterPacket_next, appDataToSendLeft_of_empty rfl]
      exact BitVec.add_zero _
    · show some _ = some _
      rw [hwindow]
  · exact bare_packetOut (t.acceptSyn isnB (s.synOut isnA).skb [.mss 1446])
      (CircularBuffer.ofCapacity_data _) ht.window

/-- A SYN-ACK whose number fails the range test is dropped. -/
theorem process_synAck_refused {isnA isnB isn : BitVec 32} {t : Tcb} {pkt : TcpPacket}
    (ht : SynSent isnA t) (hpkt : Bare isnB (isnA + 1) pkt) (hSYN : pkt.skb.tcph.SYN = true)
    (hwrap : ¬ isnA ≤ isnA + 1) : t.process isn pkt.skb = .ok t := by
  have hopts : decodeOptions pkt.skb.opts = .ok [] := by rw [hpkt.opts]; rfl
  rw [process_synAck isn ht.state hpkt.ACK hSYN hopts, if_neg]
  rw [ht.unack, hpkt.ackNo]
  exact fun h => hwrap h.1

/-- **The SYN-ACK**, when its number passes the range test.  The client opens
at once, posts its callback, and its ACK is on the way. -/
theorem process_synAck_sent {isnA isnB : BitVec 32} (isn : BitVec 32) {t : Tcb} {pkt : TcpPacket}
    (ht : SynSent isnA t) (hpkt : Bare isnB (isnA + 1) pkt) (hSYN : pkt.skb.tcph.SYN = true)
    (hwrap : isnA ≤ isnA + 1) :
    ∃ t' pkt', t.process isn pkt.skb = .ok t' ∧ Fresh (isnA + 1) (isnB + 1) t' ∧
      t'.mngr = t.mngr ++ [pkt'] ∧ Bare (isnA + 1) (isnB + 1) pkt' ∧
      pkt'.skb.tcph.SYN = false := by
  have hopts : decodeOptions pkt.skb.opts = .ok [] := by rw [hpkt.opts]; rfl
  have hrange : t.send.state.seqNrUnack ≤ pkt.skb.tcph.ackNo ∧
      pkt.skb.tcph.ackNo ≤ t.send.state.seqNrNext := by
    rw [ht.unack, ht.next, hpkt.ackNo]
    exact ⟨hwrap, BitVec.le_refl _⟩
  have hprocess := process_synAck isn ht.state hpkt.ACK hSYN hopts
  rw [if_pos hrange] at hprocess
  refine ⟨_, _, hprocess, ?_, rfl, ?_, rfl⟩
  · -- The block after the ACK has been made: open, and nothing sent yet.
    refine ⟨rfl, rfl, hpkt.ackNo, ?_, ?_, ?_, ?_, ht.called, ht.written, ht.copied,
      ht.readers, ht.window, ht.data, ht.capacity⟩
    · show ((t.acceptSynAck pkt.skb []).afterPacket _).send.state.seqNrNext = _
      rw [afterPacket_next, appDataToSendLeft_of_empty rfl]
      show t.send.state.seqNrNext + 0 = _
      rw [ht.next]
      exact BitVec.add_zero _
    · show pkt.skb.tcph.seqNo + 1 = _
      rw [hpkt.seqNo]
    · show some _ = some _
      rw [hpkt.window]
    · show t.ioCtx ++ [Task.connectionEstablished] = _
      rw [ht.ioCtx]
      rfl
  · have hbare := bare_packetOut (t.acceptSynAck pkt.skb [])
      (CircularBuffer.ofCapacity_data pkt.skb.tcph.window.toNat) ht.window
    have hun : (t.acceptSynAck pkt.skb []).send.state.seqNrUnack = isnA + 1 := hpkt.ackNo
    have hnx : (t.acceptSynAck pkt.skb []).rcv.state.next = isnB + 1 := by
      show pkt.skb.tcph.seqNo + 1 = _
      rw [hpkt.seqNo]
    rw [hun, hnx] at hbare
    exact hbare

/-- The window test for an empty segment. -/
theorem tcpCheckSegment_empty {t : Tcb} {tcph : TcpHeader} (hsync : t.state.synchronized = true)
    (hwindow : t.rcv.state.window = rcvWindow) :
    t.tcpCheckSegment tcph 0 = true ↔
      t.rcv.state.next ≤ tcph.seqNo ∧ tcph.seqNo < t.rcv.state.next + 0xFAF0 := by
  have hpos : ¬ (rcvWindow = (0 : BitVec 16)) := by decide
  have hgt : rcvWindow > (0 : BitVec 16) := by decide
  have hwide : rcvWindow.setWidth 32 = (0xFAF0 : BitVec 32) := by decide
  simp only [tcpCheckSegment, hsync, hwindow, hpos, hgt, hwide, if_true, and_false, if_false,
    and_self, decide_eq_true_eq]

/-- At RCV.NXT it passes unless the window wraps. -/
theorem tcpCheckSegment_at_next {t : Tcb} {tcph : TcpHeader} (hsync : t.state.synchronized = true)
    (hwindow : t.rcv.state.window = rcvWindow) (hseq : tcph.seqNo = t.rcv.state.next) :
    t.tcpCheckSegment tcph 0 = true ↔ t.rcv.state.next.toNat + 0xFAF0 < 2 ^ 32 := by
  rw [tcpCheckSegment_empty hsync hwindow, hseq, BitVec.lt_def, BitVec.toNat_add]
  have := t.rcv.state.next.isLt
  have hlit : (0xFAF0 : BitVec 32).toNat = 0xFAF0 := rfl
  simp only [BitVec.le_refl, true_and]
  omega

/-- **The ACK.**  Two comparisons decide: the window test, for the client's
number, and the range test, for the server's. -/
theorem process_ack_received {isnB base : BitVec 32} (isn : BitVec 32) {t : Tcb} {pkt : TcpPacket}
    (ht : SynReceived isnB base t) (hpkt : Bare base (isnB + 1) pkt)
    (hSYN : pkt.skb.tcph.SYN = false) :
    t.process isn pkt.skb =
      if base.toNat + 0xFAF0 < 2 ^ 32 ∧ isnB ≤ isnB + 1 then .ok (t.ackSyn (isnB + 1))
      else .ok t := by
  have hsync : t.state.synchronized = true := by rw [ht.state]; rfl
  have hseq : pkt.skb.tcph.seqNo = t.rcv.state.next := by rw [hpkt.seqNo, ht.rcvNext]
  have hcheck := tcpCheckSegment_at_next hsync ht.window hseq
  rw [ht.rcvNext] at hcheck
  have hprocess := process_ack isn ht.state hpkt.ACK hSYN hpkt.RST hpkt.FIN hpkt.text
  rw [hprocess, hpkt.ackNo, ht.unack, ht.next]
  simp only [hcheck, BitVec.le_refl, and_true]

theorem SynReceived.ackSyn {isnB base : BitVec 32} {t : Tcb} (ht : SynReceived isnB base t)
    (hwrap : isnB ≤ isnB + 1) : Fresh (isnB + 1) base (t.ackSyn (isnB + 1)) := by
  refine ⟨rfl, rfl, ?_, ht.next, ht.rcvNext, ht.pq, ?_, ht.called, ht.written, ht.copied,
    ht.readers, ht.window, ht.data, ht.capacity⟩
  · show SerialNumber.clamp _ t.send.state.seqNrUnack t.send.state.seqNrNext = _
    rw [ht.unack, ht.next]
    exact SerialNumber.clamp_of_le hwrap (BitVec.le_refl _)
  · show t.ioCtx ++ [Task.connectionEstablished] = _
    rw [ht.ioCtx]
    rfl

end Tcb

namespace Duplex

theorem step_toServer {isn : BitVec 32} {d : Duplex} {pkt : TcpPacket} {rest : List TcpPacket}
    {t : Tcb} (hmngr : d.client.mngr = pkt :: rest)
    (hprocess : d.server.process isn pkt.skb = .ok t) :
    step isn d .toServer = .ok ⟨{ d.client with mngr := rest }, t⟩ := by
  simp only [step, hmngr, hprocess, EventSystem.ok_bind]
  rfl

theorem step_toClient {isn : BitVec 32} {d : Duplex} {pkt : TcpPacket} {rest : List TcpPacket}
    {t : Tcb} (hmngr : d.server.mngr = pkt :: rest)
    (hprocess : d.client.process isn pkt.skb = .ok t) :
    step isn d .toClient = .ok ⟨t, { d.server with mngr := rest }⟩ := by
  simp only [step, hmngr, hprocess, EventSystem.ok_bind]
  rfl

theorem step_toServer_nil {isn : BitVec 32} {d : Duplex} (hmngr : d.client.mngr = []) :
    step isn d .toServer = .ok d := by
  simp only [step, hmngr]

theorem step_toClient_nil {isn : BitVec 32} {d : Duplex} (hmngr : d.server.mngr = []) :
    step isn d .toClient = .ok d := by
  simp only [step, hmngr]

/-! ## The three-way handshake

All pairs of ISNs. -/

/-- Both blocks are in ESTABLISHED, each has posted its connection callback
once, and on each side SND.UNA, SND.NXT and the other side's RCV.NXT are the
ISN plus one. -/
structure Completed (isnA isnB : BitVec 32) (d : Duplex) : Prop where
  client : d.client.state = .established
  server : d.server.state = .established
  clientPosted : d.client.posted = 1
  serverPosted : d.server.posted = 1
  clientUnack : d.client.send.state.seqNrUnack = isnA + 1
  clientNext : d.client.send.state.seqNrNext = isnA + 1
  clientAgrees : d.server.rcv.state.next = isnA + 1
  serverUnack : d.server.send.state.seqNrUnack = isnB + 1
  serverNext : d.server.send.state.seqNrNext = isnB + 1
  serverAgrees : d.client.rcv.state.next = isnB + 1

theorem completed_of_fresh {isnA isnB : BitVec 32} {d : Duplex}
    (hclient : Fresh (isnA + 1) (isnB + 1) d.client)
    (hserver : Fresh (isnB + 1) (isnA + 1) d.server) : Completed isnA isnB d := by
  refine ⟨hclient.state, hserver.state, ?_, ?_, hclient.unack, hclient.next, hserver.rcvNext,
    hserver.unack, hserver.next, hclient.rcvNext⟩
  · rw [posted, hclient.posted, hclient.called]; rfl
  · rw [posted, hserver.posted, hserver.called]; rfl

/-- Deliver the SYN, the SYN-ACK and the ACK. -/
def threeWay : List Event := [.toServer, .toClient, .toServer]

theorem le_succ_iff (x : BitVec 32) : x ≤ x + 1 ↔ x.toNat + 1 < 2 ^ 32 := by
  bv_omega

/-- **The three-way handshake completes exactly for the ISNs next to which
nothing wraps**: the client's ISN plus one plus the receive window, and the
server's ISN plus one, stay below `2 ^ 32`.

For every pair of ISNs and whatever the constructor leaves in the other
members.  Where the condition fails a segment is dropped, no block aborts, and
there is nobody to send it again. -/
theorem handshake_completes_iff {isnA isnB : BitVec 32} {d₀ : Duplex}
    (hstart : Connecting isnA d₀) :
    (∃ d, run isnB d₀ threeWay = .ok d ∧ Completed isnA isnB d) ↔
      isnA.toNat + 1 + 0xFAF0 < 2 ^ 32 ∧ isnB.toNat + 1 < 2 ^ 32 := by
  obtain ⟨remoteEp, localEp, remoteEp', localEp', junkSend, junkSend', junkRcv, junkRcv', h⟩ :=
    hstart
  rw [startConnecting_eq] at h
  cases h
  have hsent := (synSent_afterConnect isnA remoteEp localEp junkSend junkRcv).setMngr []
  -- The server always answers the SYN.
  obtain ⟨b₁, pkt, hb₁, hreceived, hmngr, hbare, hSYN⟩ := process_syn_quiet isnA isnB
    (s := create remoteEp localEp .connecting .connecting junkSend junkRcv)
    (quiet_create remoteEp' localEp' .listen .listen junkSend' junkRcv') rfl rfl
  have hreceived' := hreceived.setMngr []
  simp only [threeWay, run, EventSystem.run_cons, EventSystem.run_nil]
  rw [step_toServer rfl hb₁, EventSystem.ok_bind]
  -- The SYN-ACK is checked in `uint32_t`, where the ISN plus one may be zero.
  by_cases hA : isnA ≤ isnA + 1
  · obtain ⟨a₂, pkt', ha₂, hfresh, hmngr', hbare', hSYN'⟩ :=
      process_synAck_sent isnB hsent hbare hSYN hA
    rw [step_toClient hmngr ha₂, EventSystem.ok_bind]
    have hAnat := (le_succ_iff isnA).mp hA
    have hack := process_ack_received isnB hreceived' hbare' hSYN'
    rw [SerialNumber.toNat_add_one isnA hAnat] at hack
    by_cases hcond : isnA.toNat + 1 + 0xFAF0 < 2 ^ 32 ∧ isnB ≤ isnB + 1
    · rw [if_pos hcond] at hack
      rw [step_toServer hmngr' hack, EventSystem.ok_bind]
      refine ⟨fun _ => ⟨hcond.1, (le_succ_iff isnB).mp hcond.2⟩, fun _ => ⟨_, rfl, ?_⟩⟩
      refine completed_of_fresh ?_ (hreceived'.ackSyn hcond.2)
      exact ⟨hfresh.state, hfresh.nextState, hfresh.unack, hfresh.next, hfresh.rcvNext, hfresh.pq,
        hfresh.posted, hfresh.called, hfresh.written, hfresh.copied, hfresh.readers,
        hfresh.window, hfresh.data, hfresh.capacity⟩
    · -- The server drops the ACK and stays in SYN-RECEIVED.
      rw [if_neg hcond] at hack
      rw [step_toServer hmngr' hack, EventSystem.ok_bind]
      refine ⟨?_, fun h => (hcond ⟨h.1, (le_succ_iff isnB).mpr h.2⟩).elim⟩
      rintro ⟨d, hd, hcompleted⟩
      cases hd
      have hserver := hcompleted.server
      rw [hreceived'.state] at hserver
      cases hserver
  · -- The client drops the SYN-ACK and stays in SYN-SENT.
    rw [step_toClient hmngr (process_synAck_refused hsent hbare hSYN hA), EventSystem.ok_bind,
      step_toServer_nil rfl, EventSystem.ok_bind]
    constructor
    · rintro ⟨d, hd, hcompleted⟩
      cases hd
      have hclient := hcompleted.client
      rw [hsent.state] at hclient
      cases hclient
    · rintro ⟨hnat, -⟩
      exact (hA ((le_succ_iff isnA).mpr (by omega))).elim

/-- A client and a server whose indeterminate members are zero. -/
def opening (isnA : BitVec 32) : Duplex := ⟨connecting isnA, listening⟩

theorem connecting_opening (isnA : BitVec 32) : Connecting isnA (opening isnA) :=
  .mk _ _ _ _ _ _ _ _ (startConnecting_eq _ isnA)

/-- With the largest ISN the client never leaves SYN-SENT. -/
theorem handshake_fails_at_wrap : Connecting 0xFFFFFFFF (opening 0xFFFFFFFF) ∧
    ∃ d, run 9 (opening 0xFFFFFFFF) threeWay = .ok d ∧ d.client.state = .synSent ∧
      ¬ Completed 0xFFFFFFFF 9 d := by
  refine ⟨connecting_opening _, _, rfl, rfl, fun h => ?_⟩
  cases h.client

/-- With small ISNs it completes. -/
theorem handshake_completes_at_seven : ∃ d, run 9 (opening 7) threeWay = .ok d ∧
    Completed 7 9 d :=
  (handshake_completes_iff (connecting_opening 7)).mpr (by decide)

end Duplex

end Mstack
