import Mstack.Tcp.Event

/-!
# Sending a packet

`make_and_send_pkt` is called from everywhere, so it gets its specification
first: `makeAndSendPkt_eq` gives the packet and the block after it in closed
form.  The range assertion of `make_packet` never fails, so the only way to
abort is a missing queue.  The send loop is an iteration of it;
`sendLoop_preserves` is its invariant rule and `sendLoop_total` says that it
ends.

* `packetOut t pq` — the packet that goes out of the queue `pq`;
* `afterPacket t pq` — the block behind it;
* `afterConnect` — the block behind `start_connecting`.

### The simp set

`afterPacket` has a lemma for each member that a proof may ask for, tagged
`simp` and true by `rfl`: what it changes (the state, SND.NXT, the packets
sent) and what it leaves alone.  Later proofs rewrite with these and do not
unfold it.  The two facts that take an argument are kept out of the simp set:
how far SND.NXT moves, and which bytes the packet carries.

### What is load-bearing

`make_packet` asserts that the bytes it copies end inside the queue.  They
begin behind what is unacknowledged and are at most what is left behind that,
and `appDataUnacknowleged` is a minimum with the size of the queue: the
assertion holds for *all* values of the counters, also those that no connection
reaches.  That is why no invariant is needed to send a packet.
-/

namespace Mstack

namespace Tcb

open EventSystem (bind_eq_ok)

/-! ## Sending a packet

One packet, and the block behind it. -/

/-- The packet `make_packet` builds out of the queue `pq`. -/
def packetOut (t : Tcb) (pq : CircularBuffer Byte) : TcpPacket where
  proto := 0x06
  remoteEp := t.remoteEp
  localEp := t.localEp
  skb :=
    { tcph := t.outTcp (t.appDataToSendLeft pq)
      opts := []
      text := (pq.data.drop (t.appDataUnacknowleged pq)).take (t.appDataToSendLeft pq) }

/-- The block after `make_and_send_pkt`. -/
def afterPacket (t : Tcb) (pq : CircularBuffer Byte) : Tcb :=
  { t with
    mngr := t.mngr ++ [t.packetOut pq]
    state := t.nextState
    send := { t.send with state := { t.send.state with
      seqNrNext := t.send.state.seqNrNext + BitVec.ofNat 32 (t.appDataToSendLeft pq) } }
    trace := { t.trace with
      states := if t.nextState ≠ t.state then t.trace.states ++ [t.nextState]
        else t.trace.states } }

/-- No more is unacknowledged than is queued. -/
theorem appDataUnacknowleged_le (t : Tcb) (pq : CircularBuffer Byte) :
    t.appDataUnacknowleged pq ≤ pq.size := Nat.min_le_left _ _

/-- No more is sent than is queued and not yet sent. -/
theorem appDataToSendLeft_le (t : Tcb) (pq : CircularBuffer Byte) :
    t.appDataToSendLeft pq ≤ pq.size - t.appDataUnacknowleged pq := Nat.min_le_right _ _

/-- Out of an empty queue goes an empty segment. -/
theorem appDataToSendLeft_of_empty {t : Tcb} {pq : CircularBuffer Byte} (hempty : pq.data = []) :
    t.appDataToSendLeft pq = 0 := by
  have hsize : pq.size = 0 := by rw [CircularBuffer.size_eq, hempty]; rfl
  have hleft := t.appDataToSendLeft_le pq
  omega

/-- **`make_and_send_pkt` in closed form.** -/
theorem makeAndSendPkt_eq (t : Tcb) :
    t.makeAndSendPkt =
      match t.send.pq with
      | none => .error .nullSendQueue
      | some pq => .ok (t.afterPacket pq) := by
  unfold makeAndSendPkt makePacket sendPq
  cases hpq : t.send.pq with
  | none => rfl
  | some pq =>
      have hunack := t.appDataUnacknowleged_le pq
      have hleft := t.appDataToSendLeft_le pq
      have hrange : ¬ t.appDataUnacknowleged pq + t.appDataToSendLeft pq > pq.size := by omega
      simp only [EventSystem.ok_bind, if_neg hrange]
      by_cases hstate : t.nextState = t.state
      · simp [applyNextState, enqueue, afterPacket, packetOut, hstate, bind, Except.bind, pure,
          Except.pure]
      · simp [applyNextState, enqueue, afterPacket, packetOut, hstate, setState, bind,
          Except.bind, pure, Except.pure]

/-- A packet is sent where there is a queue. -/
theorem makeAndSendPkt_ok {t t' : Tcb} :
    t.makeAndSendPkt = .ok t' ↔ ∃ pq, t.send.pq = some pq ∧ t' = t.afterPacket pq := by
  rw [makeAndSendPkt_eq]
  cases t.send.pq with
  | none => simp
  | some pq => simp [eq_comm]

/-- And nowhere else. -/
theorem makeAndSendPkt_error {t : Tcb} {f : Fault} :
    t.makeAndSendPkt = .error f ↔ t.send.pq = none ∧ f = .nullSendQueue := by
  rw [makeAndSendPkt_eq]
  cases t.send.pq with
  | none => simp [eq_comm]
  | some pq => simp

section AfterPacket

variable (t : Tcb) (pq : CircularBuffer Byte)

@[simp] theorem afterPacket_state : (t.afterPacket pq).state = t.nextState := rfl
@[simp] theorem afterPacket_nextState : (t.afterPacket pq).nextState = t.nextState := rfl
@[simp] theorem afterPacket_ioCtx : (t.afterPacket pq).ioCtx = t.ioCtx := rfl
@[simp] theorem afterPacket_rcv : (t.afterPacket pq).rcv = t.rcv := rfl
@[simp] theorem afterPacket_onDataReceive :
    (t.afterPacket pq).onDataReceive = t.onDataReceive := rfl
@[simp] theorem afterPacket_pq : (t.afterPacket pq).send.pq = t.send.pq := rfl
@[simp] theorem afterPacket_unack :
    (t.afterPacket pq).send.state.seqNrUnack = t.send.state.seqNrUnack := rfl
@[simp] theorem afterPacket_mngr :
    (t.afterPacket pq).mngr = t.mngr ++ [t.packetOut pq] := rfl
@[simp] theorem afterPacket_written :
    (t.afterPacket pq).trace.written = t.trace.written := rfl
@[simp] theorem afterPacket_copied :
    (t.afterPacket pq).trace.copied = t.trace.copied := rfl
@[simp] theorem afterPacket_called :
    (t.afterPacket pq).trace.called = t.trace.called := rfl
@[simp] theorem afterPacket_acceptedText :
    (t.afterPacket pq).trace.acceptedText = t.trace.acceptedText := rfl

/-- SND.NXT moves over the bytes of the packet. -/
theorem afterPacket_next : (t.afterPacket pq).send.state.seqNrNext =
    t.send.state.seqNrNext + BitVec.ofNat 32 (t.appDataToSendLeft pq) := rfl

/-- The text of the packet has the length its header was written for. -/
theorem packetOut_text_length :
    (t.packetOut pq).skb.text.length = t.appDataToSendLeft pq := by
  have hunack := t.appDataUnacknowleged_le pq
  have hleft := t.appDataToSendLeft_le pq
  have hsize : pq.size = pq.data.length := rfl
  simp only [packetOut, List.length_take, List.length_drop]
  omega

/-- A packet with text carries SND.NXT, an empty one SND.UNA. -/
theorem packetOut_seqNo : (t.packetOut pq).skb.tcph.seqNo =
    if t.appDataToSendLeft pq = 0 then t.send.state.seqNrUnack
    else t.send.state.seqNrNext := by
  simp only [packetOut, outTcp, eq_comm]

@[simp] theorem packetOut_ackNo : (t.packetOut pq).skb.tcph.ackNo = t.rcv.state.next := rfl

/-- The text is what follows the unacknowledged bytes. -/
theorem packetOut_text : (t.packetOut pq).skb.text =
    (pq.data.drop (t.appDataUnacknowleged pq)).take (t.appDataToSendLeft pq) := rfl

end AfterPacket

/-! ## The send loop

Each turn sends at least one byte of the queue, and no turn adds one. -/

/-- A property that sending a packet preserves, the loop preserves. -/
theorem sendLoopFuel_preserves {P : Tcb → Prop}
    (hpacket : ∀ t pq, P t → t.send.pq = some pq → P (t.afterPacket pq)) :
    ∀ (fuel : ℕ) {t t' : Tcb}, P t → sendLoopFuel fuel t = .ok t' → P t' := by
  intro fuel
  induction fuel with
  | zero => intro t t' hP h; cases h; exact hP
  | succ fuel ih =>
      intro t t' hP h
      obtain ⟨more, -, h⟩ := bind_eq_ok.mp h
      cases more with
      | false => cases h; exact hP
      | true =>
          obtain ⟨u, hu, h⟩ := bind_eq_ok.mp h
          obtain ⟨pq, hpq, rfl⟩ := makeAndSendPkt_ok.mp hu
          exact ih (hpacket t pq hP hpq) h

/-- **The invariant rule of the send loop.**  A property that sending a packet
preserves, the loop preserves. -/
theorem sendLoop_preserves {P : Tcb → Prop}
    (hpacket : ∀ t pq, P t → t.send.pq = some pq → P (t.afterPacket pq)) {t t' : Tcb}
    (hP : P t) (h : t.sendLoop = .ok t') : P t' := by
  obtain ⟨pq, -, h⟩ := bind_eq_ok.mp h
  exact sendLoopFuel_preserves hpacket _ hP h

/-- The dereference succeeds where there is a queue. -/
theorem sendPq_ok {t : Tcb} {pq : CircularBuffer Byte} :
    t.sendPq = .ok pq ↔ t.send.pq = some pq := by
  unfold sendPq
  cases t.send.pq <;> simp

/-- And aborts where there is none. -/
theorem sendPq_error {t : Tcb} {f : Fault} :
    t.sendPq = .error f ↔ t.send.pq = none ∧ f = .nullSendQueue := by
  unfold sendPq
  cases t.send.pq <;> simp [eq_comm]

/-- One turn of the loop. -/
theorem sendLoopFuel_succ {t : Tcb} {pq : CircularBuffer Byte} (hpq : t.send.pq = some pq)
    (fuel : ℕ) : sendLoopFuel (fuel + 1) t =
      if t.appDataToSendLeft pq = 0 then .ok t else sendLoopFuel fuel (t.afterPacket pq) := by
  have hqueue : t.sendPq = .ok pq := sendPq_ok.mpr hpq
  have hsend : t.makeAndSendPkt = .ok (t.afterPacket pq) :=
    makeAndSendPkt_ok.mpr ⟨pq, hpq, rfl⟩
  by_cases hmore : t.appDataToSendLeft pq = 0
  · simp [sendLoopFuel, hasAppDataToSend, hqueue, hmore, pure, Except.pure]
  · have hmore' : ¬ 0 = t.appDataToSendLeft pq := fun h => hmore h.symm
    simp [sendLoopFuel, hasAppDataToSend, hqueue, hmore, hmore', hsend, pure, Except.pure]

/-- The loop aborts only where there is no queue at all. -/
theorem sendLoopFuel_total : ∀ (fuel : ℕ) {t : Tcb} {pq : CircularBuffer Byte},
    t.send.pq = some pq → ∃ t', sendLoopFuel fuel t = .ok t' := by
  intro fuel
  induction fuel with
  | zero => intro t pq _; exact ⟨t, rfl⟩
  | succ fuel ih =>
      intro t pq hpq
      rw [sendLoopFuel_succ hpq]
      split
      · exact ⟨t, rfl⟩
      · exact ih (show (t.afterPacket pq).send.pq = some pq from hpq)

/-- With a queue, the loop runs for its size at most. -/
theorem sendLoop_eq {t : Tcb} {pq : CircularBuffer Byte} (hpq : t.send.pq = some pq) :
    t.sendLoop = sendLoopFuel (pq.size + 1) t := by
  simp [sendLoop, sendPq_ok.mpr hpq]

/-- **The send loop ends**, and aborts only where there is no queue. -/
theorem sendLoop_total {t : Tcb} {pq : CircularBuffer Byte} (hpq : t.send.pq = some pq) :
    ∃ t', t.sendLoop = .ok t' := by
  rw [sendLoop_eq hpq]
  exact sendLoopFuel_total (pq.size + 1) hpq

/-! ## Opening

The SYN of an active open. -/

/-- The segment `start_connecting` sends: the ISN, no acknowledgement, and
eight bytes of options that offer an MSS of 1446. -/
def synOut (t : Tcb) (isn : BitVec 32) : TcpPacket where
  proto := 0x06
  remoteEp := t.remoteEp
  localEp := t.localEp
  skb :=
    { tcph :=
        { srcPort := t.localEp.addrv4Port
          dstPort := t.remoteEp.addrv4Port
          seqNo := isn
          ackNo := 0
          dataOffset := 7
          reserved := 0
          CWR := false
          ECE := false
          URG := false
          ACK := false
          PSH := false
          RST := false
          SYN := true
          FIN := false
          window := t.rcv.state.window
          chsum := 0
          urgentPointer := 0 }
      opts := [kMSS, 4, 0x05, 0xA6, kNOP, kNOP, kSACK, 2]
      text := [] }

/-- The block after `start_connecting`. -/
def afterConnect (t : Tcb) (isn : BitVec 32) : Tcb :=
  { t with
    mngr := t.mngr ++ [t.synOut isn]
    state := .synSent
    nextState := .established
    send := { t.send with state := { t.send.state with
      seqNrUnack := isn, seqNrNext := isn + 1 } }
    rcv := { t.rcv with state := { t.rcv.state with mss := 1446 } }
    trace := { t.trace with states := t.trace.states ++ [.synSent] } }

/-- **`start_connecting` in closed form.**  Its options fit the eight bytes it
reserves, so it never aborts. -/
theorem startConnecting_eq (t : Tcb) (isn : BitVec 32) :
    t.startConnecting isn = .ok (t.afterConnect isn) := by
  have hencode : encodeOptions (List.replicate 8 0) [.mss 1446, .nop, .nop, .sack] =
      .ok [kMSS, 4, 0x05, 0xA6, kNOP, kNOP, kSACK, 2] := by decide
  unfold startConnecting
  simp only [hencode, EventSystem.ok_bind]
  rfl

end Tcb

end Mstack
