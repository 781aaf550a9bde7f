import Mstack.Lib.SendWindow
import Mstack.Tcp.Control

/-!
# The sending side

What a block sends, against the abstract `SendWindow`.

A window is a stream with two positions, *acked* and *sent*; what lies behind
the first is the queue, what lies behind the second is unsent.
`Sends base w t` says that the block `t` represents the window `w`: SND.UNA and
SND.NXT are `base` plus the two positions, modulo `2 ^ 32`, and the send queue
is everything not yet confirmed.  The three operations of the code that touch
the send side are then operations of the window:

* `async_write` is `write` (`Sends.afterWrite`);
* `make_packet` is `send` (`Sends.afterPacket`);
* the ACK step is `ack` (`Sends.ackData`), if the acknowledgement lies between
  SND.UNA and SND.NXT.

### Main results

* `Sends.packetOut_text`, `Sends.packetOut_seqNo` — a packet carries the front
  of what is unsent, under the number of its first byte.
* `step_sending` — every event keeps the representation.
* `send_stream_integrity` — what was emitted is a prefix of what was written,
  every segment carries the number of its first byte, and the queue is what is
  left behind SND.UNA.

### What is load-bearing

The index from which `make_packet` takes its bytes is computed from two
wrapping counters and a `min` with the queue size.  It is right because what is
in flight is part of the queue, and **the queue is smaller than `2 ^ 32`**
(`Sends.queue_lt`, `Sends.inFlight_eq`).  The stream itself may be longer than
that: positions are natural numbers, and only their differences are compared
with counters.

`HarmlessAck` is what is needed of the peer: an acknowledgement outside of the
range erases queued bytes that were never confirmed, unless there are none.
`SaneAck` implies it.
-/

namespace Mstack

namespace Tcb

open EventSystem (bind_eq_ok Admitted)

/-- All bytes the application has written. -/
def written (t : Tcb) : List Byte := t.trace.written.flatten

/-- The texts of a list of packets, in order. -/
def payload (pkts : List TcpPacket) : List Byte := (pkts.map (·.skb.text)).flatten

@[simp] theorem payload_nil : payload [] = [] := rfl

@[simp] theorem payload_append (pkts pkts' : List TcpPacket) :
    payload (pkts ++ pkts') = payload pkts ++ payload pkts' := by
  simp [payload]

@[simp] theorem payload_singleton (pkt : TcpPacket) : payload [pkt] = pkt.skb.text := by
  simp [payload]

/-- **The block represents the window.**  `base` is the number of the first
byte, and the positions of the window are natural numbers that the counters of
the block hold modulo `2 ^ 32`. -/
structure Sends (base : BitVec 32) (w : SendWindow Byte) (t : Tcb) : Prop where
  stream : w.stream = t.written
  unack : t.send.state.seqNrUnack = base + BitVec.ofNat 32 w.acked
  next : t.send.state.seqNrNext = base + BitVec.ofNat 32 w.sent
  queue : ∃ pq, t.send.pq = some pq ∧ pq.data = w.queue ∧ pq.capacity < 2 ^ 32

/-- `Sends` reads the send side and the written bytes. -/
theorem Sends.congr {base : BitVec 32} {w : SendWindow Byte} {t u : Tcb} (h : Sends base w t)
    (hsend : u.send = t.send) (hwritten : u.trace.written = t.trace.written) :
    Sends base w u := by
  refine ⟨?_, ?_, ?_, ?_⟩
  · rw [h.stream, written, written, hwritten]
  · rw [hsend]; exact h.unack
  · rw [hsend]; exact h.next
  · rw [hsend]; exact h.queue

section Sends

variable {base : BitVec 32} {w : SendWindow Byte} {t : Tcb} {pq : CircularBuffer Byte}

theorem Sends.data_eq (h : Sends base w t) (hpq : t.send.pq = some pq) : pq.data = w.queue := by
  obtain ⟨pq', hpq', hdata, -⟩ := h.queue
  rw [hpq] at hpq'
  cases hpq'
  exact hdata

theorem Sends.queue_lt (h : Sends base w t) : w.queue.length < 2 ^ 32 := by
  obtain ⟨pq, -, hdata, hcap⟩ := h.queue
  have hsize := pq.size_le_capacity
  rw [hdata] at hsize
  omega

/-- SND.NXT − SND.UNA, taken in 32 bits, is what is in flight. -/
theorem Sends.inFlight_eq (h : Sends base w t) :
    (t.send.state.seqNrNext - t.send.state.seqNrUnack).toNat = w.inFlight := by
  have hle := w.inFlight_le_queue
  have hlt := h.queue_lt
  rw [h.next, h.unack]
  exact SerialNumber.toNat_add_ofNat_sub base w.acked_le (lt_of_le_of_lt hle hlt)

/-- `app_data_unacknowleged` is what is in flight. -/
theorem Sends.appDataUnacknowleged_eq (h : Sends base w t) (hpq : t.send.pq = some pq) :
    t.appDataUnacknowleged pq = w.inFlight := by
  rw [appDataUnacknowleged, h.inFlight_eq, CircularBuffer.size_eq, h.data_eq hpq]
  exact Nat.min_eq_right w.inFlight_le_queue

/-- `app_data_to_send_left` does not exceed what is unsent. -/
theorem Sends.appDataToSendLeft_eq (h : Sends base w t) (hpq : t.send.pq = some pq) :
    t.appDataToSendLeft pq = min t.send.state.mss.toNat w.unsent.length := by
  rw [appDataToSendLeft, h.appDataUnacknowleged_eq hpq, CircularBuffer.size_eq, h.data_eq hpq,
    w.queue_length_sub]

theorem Sends.appDataToSendLeft_le (h : Sends base w t) (hpq : t.send.pq = some pq) :
    t.appDataToSendLeft pq ≤ w.unsent.length := by
  rw [h.appDataToSendLeft_eq hpq]
  exact Nat.min_le_right _ _

/-- **`make_packet` sends the front of what is unsent.**  The index it starts
from, `app_data_unacknowleged`, is the number of bytes in flight, and these are
the front of the queue. -/
theorem Sends.packetOut_text (h : Sends base w t) (hpq : t.send.pq = some pq) :
    (t.packetOut pq).skb.text = w.unsent.take (t.appDataToSendLeft pq) := by
  rw [Tcb.packetOut_text, h.appDataUnacknowleged_eq hpq, h.data_eq hpq, w.queue_drop_inFlight]

/-- **… under the number of its first byte.** -/
theorem Sends.packetOut_seqNo (h : Sends base w t) (htext : (t.packetOut pq).skb.text ≠ []) :
    (t.packetOut pq).skb.tcph.seqNo = base + BitVec.ofNat 32 w.sent := by
  have hlen := t.packetOut_text_length pq
  have hpos := List.length_pos_of_ne_nil htext
  rw [Tcb.packetOut_seqNo, if_neg (by omega), h.next]

theorem Sends.afterPacket (h : Sends base w t) (hpq : t.send.pq = some pq) :
    Sends base (w.send (t.appDataToSendLeft pq) (h.appDataToSendLeft_le hpq))
      (t.afterPacket pq) := by
  refine ⟨h.stream, h.unack, ?_, h.queue⟩
  rw [afterPacket_next, h.next, SerialNumber.add_ofNat_add]
  rfl

/-- **An acknowledgement between SND.UNA and SND.NXT** confirms that many
bytes.  Their number is the 32-bit difference, which is what the code erases
from the queue. -/
theorem Sends.ackData (h : Sends base w t) (hpq : t.send.pq = some pq) {ackNo : BitVec 32}
    (hlo : t.send.state.seqNrUnack ≤ ackNo) (hhi : ackNo ≤ t.send.state.seqNrNext) :
    ∃ hle, Sends base (w.ack (ackNo - t.send.state.seqNrUnack).toNat hle) (t.ackData pq ackNo) := by
  have hle : (ackNo - t.send.state.seqNrUnack).toNat ≤ w.inFlight := by
    rw [← h.inFlight_eq]
    bv_omega
  refine ⟨hle, h.stream, ?_, h.next, ?_⟩
  · rw [ackData_unack, SerialNumber.clamp_of_le hlo hhi]
    show ackNo = base + BitVec.ofNat 32 (w.acked + _)
    rw [← SerialNumber.add_ofNat_add, ← h.unack, BitVec.ofNat_toNat, BitVec.setWidth_eq]
    bv_omega
  · obtain ⟨pq', hpq', hdata, hcap⟩ := h.queue
    rw [hpq] at hpq'
    cases hpq'
    refine ⟨_, ackData_pq t pq ackNo, ?_, hcap⟩
    have hsize : (ackNo - t.send.state.seqNrUnack).toNat ≤ pq.size := by
      rw [CircularBuffer.size_eq, hdata]
      exact hle.trans w.inFlight_le_queue
    rw [Nat.min_eq_right hsize, CircularBuffer.eraseBegin_data, hdata, w.queue_ack]

/-- Any other acknowledgement finds nothing to remove in an empty queue. -/
theorem Sends.ackData_of_empty (h : Sends base w t) (hpq : t.send.pq = some pq)
    (hempty : pq.data = []) (ackNo : BitVec 32) : Sends base w (t.ackData pq ackNo) := by
  have hdata := h.data_eq hpq
  have hacked : w.acked = w.sent := w.acked_eq_of_queue_nil (by rw [← hdata, hempty])
  have hsame : t.send.state.seqNrUnack = t.send.state.seqNrNext := by
    rw [h.unack, h.next, hacked]
  refine ⟨h.stream, ?_, h.next, ?_⟩
  · rw [ackData_unack, hsame, SerialNumber.clamp_self, ← hsame, h.unack]
  · obtain ⟨pq', hpq', -, hcap⟩ := h.queue
    rw [hpq] at hpq'
    cases hpq'
    exact ⟨_, ackData_pq t pq ackNo, by
      rw [CircularBuffer.eraseBegin_data, hempty, List.drop_nil, ← hdata, hempty], hcap⟩

/-- **A write that fits.**  It appends to the stream and to the queue; neither
position moves. -/
theorem Sends.afterWrite (h : Sends base w t) (hpq : t.send.pq = some pq) {buf : List Byte}
    (hfit : pq.size + buf.length ≤ pq.capacity) (cb : CallbackId) :
    Sends base (w.write buf) (t.afterWrite pq buf cb) := by
  refine ⟨?_, h.unack, h.next, ?_⟩
  · show w.stream ++ buf = (t.trace.written ++ [buf]).flatten
    rw [List.flatten_append, h.stream]
    simp [written]
  · obtain ⟨pq', hpq', hdata, hcap⟩ := h.queue
    rw [hpq] at hpq'
    cases hpq'
    exact ⟨pq.insertEnd buf, rfl, by rw [pq.insertEnd_data hfit, hdata, w.queue_write], hcap⟩

end Sends

/-! ## The emitted segments

What the packets handed to the manager say, as one stream. -/

/-- Every segment with text carries the number of its first byte: `base` plus
the bytes sent before it. -/
def Labelled (base : BitVec 32) (pkts : List TcpPacket) : Prop :=
  ∀ pre pkt post, pkts = pre ++ pkt :: post → pkt.skb.text ≠ [] →
    pkt.skb.tcph.seqNo = base + BitVec.ofNat 32 (payload pre).length

theorem labelled_of_payload_nil {base : BitVec 32} {pkts : List TcpPacket}
    (h : payload pkts = []) : Labelled base pkts := by
  rintro pre pkt post rfl htext
  simp only [payload, List.map_append, List.map_cons, List.flatten_append, List.flatten_cons,
    List.append_eq_nil_iff] at h
  exact absurd h.2.1 htext

theorem Labelled.concat {base : BitVec 32} {pkts : List TcpPacket} {pkt : TcpPacket}
    (h : Labelled base pkts) (hpkt : pkt.skb.text ≠ [] →
      pkt.skb.tcph.seqNo = base + BitVec.ofNat 32 (payload pkts).length) :
    Labelled base (pkts ++ [pkt]) := by
  intro pre q post heq htext
  rcases List.eq_nil_or_concat post with rfl | ⟨post', last, rfl⟩
  · obtain ⟨rfl, hlast⟩ := List.append_inj' heq rfl
    cases hlast
    exact hpkt htext
  · have heq' : pkts ++ [pkt] = (pre ++ q :: post') ++ [last] := by simpa using heq
    obtain ⟨rfl, -⟩ := List.append_inj' heq' rfl
    exact h pre q post' rfl htext

/-- **The sending block**: it represents the window, and what it has emitted is
the emitted prefix, byte by byte under its own number. -/
structure SendStream (base : BitVec 32) (w : SendWindow Byte) (t : Tcb) : Prop
    extends Sends base w t where
  emitted : payload t.mngr = w.emitted
  labelled : Labelled base t.mngr

section SendStream

variable {base : BitVec 32} {w : SendWindow Byte} {t : Tcb} {pq : CircularBuffer Byte}

theorem SendStream.congr {u : Tcb} (h : SendStream base w t) (hsend : u.send = t.send)
    (hwritten : u.trace.written = t.trace.written) (hmngr : u.mngr = t.mngr) :
    SendStream base w u :=
  ⟨h.toSends.congr hsend hwritten, by rw [hmngr]; exact h.emitted,
    by rw [hmngr]; exact h.labelled⟩

theorem SendStream.afterPacket (h : SendStream base w t) (hpq : t.send.pq = some pq) :
    ∃ w', SendStream base w' (t.afterPacket pq) := by
  refine ⟨_, h.toSends.afterPacket hpq, ?_, ?_⟩
  · rw [afterPacket_mngr, payload_append, payload_singleton, h.emitted,
      h.packetOut_text hpq, w.emitted_send]
  · rw [afterPacket_mngr]
    refine h.labelled.concat fun htext => ?_
    rw [h.packetOut_seqNo htext, h.emitted, w.emitted_length]

/-- The peer's acknowledgement is sane: where it is processed it lies between
SND.UNA and SND.NXT, as unsigned numbers. -/
def SaneAck (t : Tcb) (seg : Segment) : Prop :=
  t.reachesAckStep seg = true → seg.tcph.ACK = true → t.state.acksData = true →
    t.send.state.seqNrUnack ≤ seg.tcph.ackNo ∧ seg.tcph.ackNo ≤ t.send.state.seqNrNext

/-- The peer's acknowledgement takes nothing from the queue that it does not
confirm: it is sane, or the queue is empty. -/
def HarmlessAck (t : Tcb) (seg : Segment) : Prop :=
  t.reachesAckStep seg = true → seg.tcph.ACK = true → t.state.acksData = true →
    (t.send.state.seqNrUnack ≤ seg.tcph.ackNo ∧ seg.tcph.ackNo ≤ t.send.state.seqNrNext) ∨
      ∃ pq, t.send.pq = some pq ∧ pq.data = []

theorem SaneAck.harmless {seg : Segment} (h : SaneAck t seg) : HarmlessAck t seg :=
  fun hreach hACK hacks => .inl (h hreach hACK hacks)

/-- The data branch of the ACK step. -/
theorem SendStream.ackData {seg : Segment} (h : SendStream base w t)
    (hpq : t.send.pq = some pq) (hack : HarmlessAck t seg)
    (hreach : t.reachesAckStep seg = true) (hACK : seg.tcph.ACK = true)
    (hacks : t.state.acksData = true) :
    ∃ w', SendStream base w' (t.ackData pq seg.tcph.ackNo) := by
  rcases hack hreach hACK hacks with ⟨hlo, hhi⟩ | ⟨pq', hpq', hempty⟩
  · obtain ⟨hle, hsends⟩ := h.toSends.ackData hpq hlo hhi
    exact ⟨_, hsends, h.emitted, h.labelled⟩
  · rw [hpq] at hpq'
    cases hpq'
    exact ⟨w, h.toSends.ackData_of_empty hpq hempty _, h.emitted, h.labelled⟩

theorem AckOutcome.sendStream {seg : Segment} {flow : Flow} (hout : AckOutcome t seg flow)
    (hopen : Open t) (h : SendStream base w t) (hreach : t.reachesAckStep seg = true)
    (hack : HarmlessAck t seg) : ∃ w', SendStream base w' flow.block := by
  cases hout with
  | absent hACK => exact ⟨w, h⟩
  | accepted hACK hstate hlo hhi => exact (hopen.ne_synReceived hstate).elim
  | refused hACK hstate hrange => exact (hopen.ne_synReceived hstate).elim
  | data hACK hstate pq hpq hhi =>
      obtain ⟨w', h'⟩ := h.ackData hpq hack hreach hACK hstate
      obtain ⟨n, hn⟩ := (t.ackData pq seg.tcph.ackNo).ackNextState_eq
      rw [hn]
      exact ⟨w', h'.congr rfl rfl rfl⟩
  | unsent hACK hstate pq pq' hpq hhi hpq' =>
      obtain ⟨w', h'⟩ := h.ackData hpq hack hreach hACK hstate
      exact h'.afterPacket hpq'
  | lastAck hACK hstate => exact ⟨w, h.congr rfl rfl rfl⟩
  | timeWait hACK hstate pq hpq => exact h.afterPacket hpq
  | unsynchronized hACK hstate => exact ⟨w, h⟩

theorem TextOutcome.sendStream {t' : Tcb} {seg : Segment} (hout : TextOutcome t seg t')
    (h : SendStream base w t) : SendStream base w t' := by
  cases hout <;> exact h.congr rfl rfl rfl

theorem FinOutcome.sendStream {t' : Tcb} {seg : Segment} (hout : FinOutcome t seg t')
    (h : SendStream base w t) : ∃ w', SendStream base w' t' := by
  cases hout with
  | ignored hno => exact ⟨w, h⟩
  | closed hFIN hstate pq hpq =>
      have hbefore : SendStream base w ((t.advanceRcvNext 1).setNextState .closeWait) :=
        h.congr rfl rfl rfl
      obtain ⟨w', h'⟩ := hbefore.afterPacket hpq
      exact ⟨w', h'.congr rfl rfl rfl⟩
  | finWait hFIN hstate => exact ⟨w, h.congr rfl rfl rfl⟩

end SendStream

/-- The invariant: an open block that represents some window. -/
def Sending (base : BitVec 32) (t : Tcb) : Prop := Open t ∧ ∃ w, SendStream base w t

theorem Sending.process {isn base : BitVec 32} {t t' : Tcb} {seg : Segment}
    (h : Sending base t) (hack : HarmlessAck t seg) (hprocess : t.process isn seg = .ok t') :
    Sending base t' := by
  obtain ⟨hopen, w, h⟩ := h
  refine ⟨hopen.process hprocess, ?_⟩
  rcases hopen.process_cases hprocess with
    ⟨-, rfl⟩ | ⟨hreach, hret⟩ | ⟨hreach, t₁, t₂, hnext, htext, hfin⟩
  · exact ⟨w, h⟩
  · exact hret.sendStream hopen h hreach hack
  · obtain ⟨w₁, h₁⟩ := hnext.sendStream hopen h hreach hack
    exact hfin.sendStream (htext.sendStream h₁)

theorem Sending.appCall {base : BitVec 32} {t t' : Tcb} {c : AppCall} (h : Sending base t)
    (hcall : t.appCall c = .ok t') : Sending base t' := by
  obtain ⟨hopen, w, h⟩ := h
  refine ⟨hopen.appCall hcall, ?_⟩
  cases appCall_cases hcall with
  | waits size cb hempty => exact ⟨w, h.congr rfl rfl rfl⟩
  | reads size cb hdata => exact ⟨w, h.congr rfl rfl rfl⟩
  | writes buf cb pq hpq hfit =>
      exact ⟨w.write buf, h.toSends.afterWrite hpq hfit cb,
        by rw [w.emitted_write]; exact h.emitted, h.labelled⟩

theorem Sending.enterTask {base : BitVec 32} {t : Tcb} (h : Sending base t) (k : ℕ)
    (task : Task) : Sending base (t.enterTask k task) := by
  obtain ⟨hopen, w, h⟩ := h
  exact ⟨hopen.enterTask k task, w, h.congr (by simp) (by simp) (by simp)⟩

theorem Sending.afterPacket {base : BitVec 32} {t : Tcb} {pq : CircularBuffer Byte}
    (h : Sending base t) (hpq : t.send.pq = some pq) : Sending base (t.afterPacket pq) := by
  obtain ⟨hopen, w, h⟩ := h
  exact ⟨hopen.afterPacket hpq, h.afterPacket hpq⟩

/-- **The send side over one event.**  Segments need a harmless
acknowledgement, calls need nothing: a write that does not fit has no state
behind it. -/
theorem step_sending {isn base : BitVec 32} {callOk : Tcb → AppCall → Prop} {t t' : Tcb}
    {e : Event} (h : Sending base t) (hok : EventOk HarmlessAck callOk t e)
    (hstep : step isn t e = .ok t') : Sending base t' := by
  refine step_induction ?_ ?_ ?_ ?_ t e t' h hok hstep
  · exact fun t seg t' h hack hprocess => h.process hack hprocess
  · exact fun t c t' h _ hcall => h.appCall hcall
  · exact fun t k task h _ => h.enterTask k task
  · exact fun t pq h hpq => h.afterPacket hpq

/-- A block that has just entered ESTABLISHED, with its SYN acknowledged and
nothing written.  Its first byte has the number ISN + 1. -/
structure FreshSender (isn : BitVec 32) (t : Tcb) : Prop where
  state : t.state = .established
  nextState : t.nextState = .established
  unack : t.send.state.seqNrUnack = isn + 1
  next : t.send.state.seqNrNext = isn + 1
  queue : ∃ pq, t.send.pq = some pq ∧ pq.data = [] ∧ pq.capacity < 2 ^ 16
  written : t.trace.written = []
  emitted : payload t.mngr = []

theorem FreshSender.sending {isn : BitVec 32} {t : Tcb} (h : FreshSender isn t) :
    Sending (isn + 1) t := by
  obtain ⟨pq, hpq, hempty, hcap⟩ := h.queue
  refine ⟨.of_established h.state h.nextState hpq, SendWindow.start, ⟨?_, ?_, ?_, ?_⟩, ?_, ?_⟩
  · rw [Tcb.written, h.written]; rfl
  · rw [h.unack]; exact (BitVec.add_zero _).symm
  · rw [h.next]; exact (BitVec.add_zero _).symm
  · exact ⟨pq, hpq, hempty, by omega⟩
  · exact h.emitted
  · exact labelled_of_payload_nil h.emitted

/-- Writes fit the free space of the send queue; reads are not constrained. -/
def WritesFit (t : Tcb) : AppCall → Prop
  | .read _ _ => True
  | .write buf _ => WriteFits t buf

/-- **Send-stream integrity.**  From ESTABLISHED on, against a peer with sane
acknowledgements, for every interleaving of writes, reads, handlers and
segments and for every MSS: the emitted bytes are a prefix of the written ones,
every segment with text carries the number of its first byte, and the send
queue is what is left of the written bytes behind SND.UNA.  As long as less
than `2 ^ 32` bytes were written the two positions are the 32-bit differences
themselves. -/
theorem send_stream_integrity {isn : BitVec 32} {t₀ t : Tcb} {es : List Event}
    (hfresh : FreshSender isn t₀) (hok : RunOk isn SaneAck WritesFit t₀ es)
    (hrun : run isn t₀ es = .ok t) :
    ∃ acked sent pq, acked ≤ sent ∧ sent ≤ t.written.length ∧
      t.send.state.seqNrUnack = isn + 1 + BitVec.ofNat 32 acked ∧
      t.send.state.seqNrNext = isn + 1 + BitVec.ofNat 32 sent ∧
      payload t.mngr = t.written.take sent ∧
      Labelled (isn + 1) t.mngr ∧
      t.send.pq = some pq ∧ pq.data = t.written.drop acked ∧
      (t.written.length < 2 ^ 32 →
        sent = (t.send.state.seqNrNext - (isn + 1)).toNat ∧
        acked = (t.send.state.seqNrUnack - (isn + 1)).toNat) := by
  have hstep : ∀ s e s', Sending (isn + 1) s → EventOk SaneAck WritesFit s e →
      step isn s e = .ok s' → Sending (isn + 1) s' := by
    intro s e s' h hoke hs
    exact step_sending h (hoke.mono (fun t seg hsane => hsane.harmless) fun t c hc => hc) hs
  obtain ⟨-, w, h⟩ := EventSystem.run_invariant hstep hfresh.sending hok hrun
  obtain ⟨pq, hpq, hdata, -⟩ := h.queue
  refine ⟨w.acked, w.sent, pq, w.acked_le, ?_, h.unack, h.next, ?_, h.labelled, hpq, ?_, ?_⟩
  · rw [← h.stream]; exact w.sent_le
  · rw [h.emitted, ← h.stream]; rfl
  · rw [hdata, ← h.stream]; rfl
  · intro hlt
    rw [← h.stream] at hlt
    have hsent := w.sent_le
    have hacked := w.acked_le
    rw [h.next, h.unack, BitVec.add_comm, BitVec.add_sub_cancel, BitVec.add_comm (isn + 1),
      BitVec.add_sub_cancel, BitVec.toNat_ofNat, BitVec.toNat_ofNat,
      Nat.mod_eq_of_lt (by omega), Nat.mod_eq_of_lt (by omega)]
    exact ⟨rfl, rfl⟩

/-- Three bytes in segments of two, and an acknowledgement of the first. -/
def writeSendAck : List Event :=
  [.call (.write [0x61, 0x62, 0x63] 1), .task 0 [],
    .process ⟨{ TcpHeader.bare with ACK := true, seqNo := 101, ackNo := 10 }, [], []⟩]

theorem writeSendAck_stream : RunOk 7 SaneAck WritesFit (established 7 100 2 500) writeSendAck ∧
    ∃ t, run 7 (established 7 100 2 500) writeSendAck = .ok t ∧
      ∃ sent, payload t.mngr = t.written.take sent := by
  have hfresh : FreshSender 7 (established 7 100 2 500) :=
    ⟨rfl, rfl, rfl, rfl, ⟨_, rfl, rfl, by decide⟩, rfl, rfl⟩
  have hok : RunOk 7 SaneAck WritesFit (established 7 100 2 500) writeSendAck := by
    refine .cons ⟨_, rfl, by decide⟩ rfl ?_
    refine .cons (fun task hk _ => by cases hk; contradiction) rfl ?_
    exact .single fun _ _ _ => by decide
  obtain ⟨acked, sent, pq, -, -, -, -, hpayload, -⟩ := send_stream_integrity hfresh hok rfl
  exact ⟨hok, _, rfl, sent, hpayload⟩

end Tcb

end Mstack
