import Mstack.Tcp.Conservation
import Mstack.Tcp.Duplex

/-!
# One side of an open connection

What one block of an open connection owes the other.

* `Side` describes the block: its send window, its receive window, and bounds
  that keep the sequence numbers in use from wrapping.
* `Channel` describes a list of packets: texts under consecutive numbers, and
  acknowledgement numbers that only grow.
* `Outgoing` describes the channel out of a block, relative to its peer: the
  bytes in it continue what the peer has received, every text carries the
  number of its first byte, and the acknowledgement numbers lie between what
  the peer knows to be confirmed and what the readers at this end have got.

### Main results

Two lemmas carry everything that is proved about open connections:

* `local_step` — a local event keeps `Side` and `Outgoing`, and does not abort;
* `Side.deliver` — delivering the oldest packet of a channel keeps both sides
  and both channels, and does not abort.

### What is load-bearing

**Nothing the sender has out exceeds a receive window.**  The send queue is as
large as the window the peer announced, the peer's receive queue is as large as
well, and what is confirmed has been read there.  So the oldest packet always
fits (`Outgoing.text_le`), although neither end checks it.

**What confirms what.**  RCV.NXT counts the bytes the readers have got, so an
acknowledgement number is at most what was read at the other end, and that is
at most what was sent here (`Side.ack_range`).  Hence every acknowledgement in
a channel is a sane one.

**The lower end of the window test.**  A pure acknowledgement carries SND.UNA
and may be turned away (`Tcp.PureAck`).  Then what it acknowledges is not
confirmed, and nothing else depends on it: `Side.process_sends` allows that.
-/

namespace Mstack

namespace Tcb

open EventSystem (bind_eq_ok Admitted)

/-! ## Channels

What the packets on their way say, oldest first. -/

/-- A packet of an open connection: ACK is the only control bit that matters,
and its length fits the 16 bits of `seglen`. -/
structure Plain (pkt : TcpPacket) : Prop where
  ACK : pkt.skb.tcph.ACK = true
  SYN : pkt.skb.tcph.SYN = false
  RST : pkt.skb.tcph.RST = false
  FIN : pkt.skb.tcph.FIN = false
  length : pkt.skb.text.length < 2 ^ 16

/-- **The packets in a channel.**  Texts are numbered from `base` plus the
position `pos` on; acknowledgement numbers are `base'` plus values that grow
from `lo` to `hi`.  The recursion is along the channel, so that the oldest
packet can be taken off (`pos` and `lo` move) and a new one added at the end
(`Channel.concat`). -/
def Channel (base base' : BitVec 32) (hi : ℕ) : ℕ → ℕ → List TcpPacket → Prop
  | _, lo, [] => lo ≤ hi
  | pos, lo, pkt :: pkts =>
      Plain pkt ∧ (pkt.skb.text ≠ [] → pkt.skb.tcph.seqNo = base + BitVec.ofNat 32 pos) ∧
        ∃ k, lo ≤ k ∧ pkt.skb.tcph.ackNo = base' + BitVec.ofNat 32 k ∧
          Channel base base' hi (pos + pkt.skb.text.length) k pkts

section Channel

variable {base base' : BitVec 32} {hi : ℕ}

theorem Channel.lo_le_hi {pos lo : ℕ} {pkts : List TcpPacket}
    (h : Channel base base' hi pos lo pkts) : lo ≤ hi := by
  induction pkts generalizing pos lo with
  | nil => exact h
  | cons pkt pkts ih =>
      obtain ⟨-, -, k, hlo, -, hrest⟩ := h
      exact hlo.trans (ih hrest)

theorem Channel.mono_lo {pos lo lo' : ℕ} {pkts : List TcpPacket} (hle : lo' ≤ lo)
    (h : Channel base base' hi pos lo pkts) : Channel base base' hi pos lo' pkts := by
  cases pkts with
  | nil => exact hle.trans h
  | cons pkt pkts =>
      obtain ⟨hplain, hseq, k, hlo, hack, hrest⟩ := h
      exact ⟨hplain, hseq, k, hle.trans hlo, hack, hrest⟩

theorem Channel.mono_hi {hi' pos lo : ℕ} {pkts : List TcpPacket} (hle : hi ≤ hi')
    (h : Channel base base' hi pos lo pkts) : Channel base base' hi' pos lo pkts := by
  induction pkts generalizing pos lo with
  | nil => exact Nat.le_trans h hle
  | cons pkt pkts ih =>
      obtain ⟨hplain, hseq, k, hlo, hack, hrest⟩ := h
      exact ⟨hplain, hseq, k, hlo, hack, ih hrest⟩

/-- A packet enters the channel at its end. -/
theorem Channel.concat {pos lo : ℕ} {pkts : List TcpPacket} {pkt : TcpPacket}
    (h : Channel base base' hi pos lo pkts) (hplain : Plain pkt)
    (hseq : pkt.skb.text ≠ [] →
      pkt.skb.tcph.seqNo = base + BitVec.ofNat 32 (pos + (payload pkts).length))
    (hack : pkt.skb.tcph.ackNo = base' + BitVec.ofNat 32 hi) :
    Channel base base' hi pos lo (pkts ++ [pkt]) := by
  induction pkts generalizing pos lo with
  | nil => exact ⟨hplain, hseq, hi, h, hack, le_rfl⟩
  | cons p pkts ih =>
      obtain ⟨hplain', hseq', k, hlo, hack', hrest⟩ := h
      refine ⟨hplain', hseq', k, hlo, hack', ih hrest fun htext => ?_⟩
      rw [hseq htext]
      congr 2
      simp only [payload, List.map_cons, List.flatten_cons, List.length_append]
      omega

end Channel

/-! ## Sides

A block, its two windows, and the channel out of it. -/

/-- **One side of an open connection.**  `base` is the number of its first
byte, `base'` that of the first byte of its peer.  `capacity` and `rcvCapacity`
are the two halves of the promise that the windows make; `room` keeps the
numbers from wrapping. -/
structure Side (base base' : BitVec 32) (ws : SendWindow Byte) (wr : ReceiveWindow Byte)
    (t : Tcb) : Prop extends Open t where
  established : t.state = .established
  oneReader : OneReader t
  sends : Sends base ws t
  capacity : ∀ pq, t.send.pq = some pq → pq.capacity ≤ 0xFAF0
  room : base.toNat + ws.acked + 0xFAF0 < 2 ^ 32
  receives : Receives base' wr t
  rcvCapacity : 0xFAF0 ≤ t.rcv.pq.capacity
  window : t.rcv.state.window = rcvWindow

/-- **The channel out of a side.**  The peer has received `got`; `lo` is how
much the peer knows to be confirmed of its own stream. -/
structure Outgoing (base base' : BitVec 32) (got : List Byte) (lo : ℕ) (ws : SendWindow Byte)
    (wr : ReceiveWindow Byte) (t : Tcb) : Prop where
  emitted : got ++ payload t.mngr = ws.emitted
  channel : Channel base base' wr.handed got.length lo t.mngr

section Side

variable {base base' : BitVec 32} {ws : SendWindow Byte} {wr : ReceiveWindow Byte} {t : Tcb}
  {got : List Byte} {lo : ℕ}

/-- What is written does not exceed what is confirmed by more than a window. -/
theorem Side.stream_le (h : Side base base' ws wr t) : ws.stream.length ≤ ws.acked + 0xFAF0 := by
  obtain ⟨pq, hpq, hdata, -⟩ := h.sends.queue
  have hcap := h.capacity pq hpq
  have hsize := pq.size_le_capacity
  rw [hdata, ws.queue_length] at hsize
  omega

/-- No sequence number of this side wraps. -/
theorem Side.toNat_add (h : Side base base' ws wr t) {n : ℕ} (hle : n ≤ ws.sent) :
    (base + BitVec.ofNat 32 n).toNat = base.toNat + n := by
  have hstream := h.stream_le
  have hroom := h.room
  have hsent := ws.sent_le
  exact SerialNumber.toNat_add_ofNat base (by omega)

theorem Side.setMngr (h : Side base base' ws wr t) (m : List TcpPacket) :
    Side base base' ws wr { t with mngr := m } :=
  ⟨⟨⟨h.control, h.queue⟩, h.state⟩, h.established, ⟨h.oneReader.one, h.oneReader.waiting⟩,
    h.sends.congr rfl rfl, h.capacity, h.room, h.receives.congr rfl rfl, h.rcvCapacity, h.window⟩

theorem Side.plain_packetOut (h : Side base base' ws wr t) (pq : CircularBuffer Byte) :
    Plain (t.packetOut pq) := by
  refine ⟨rfl, ?_, rfl, rfl, ?_⟩
  · rw [packetOut_SYN, h.nextState_eq h.established rfl]
    rfl
  · rw [packetOut_text_length, appDataToSendLeft]
    exact lt_of_le_of_lt (Nat.min_le_left _ _) t.send.state.mss.isLt

/-- **Sending a packet.**  It is the next piece of the stream under the next
number, and it acknowledges what the readers have got.  The window moves by
what it carries. -/
theorem Side.afterPacket {pq : CircularBuffer Byte} (h : Side base base' ws wr t)
    (hout : Outgoing base base' got lo ws wr t) (hpq : t.send.pq = some pq) :
    ∃ ws', Side base base' ws' wr (t.afterPacket pq) ∧
      Outgoing base base' got lo ws' wr (t.afterPacket pq) ∧ ws'.acked = ws.acked := by
  have hlen : got.length + (payload t.mngr).length = ws.sent := by
    rw [← List.length_append, hout.emitted, ws.emitted_length]
  refine ⟨_, ⟨h.toOpen.afterPacket hpq, ?_, h.oneReader.afterPacket pq, h.sends.afterPacket hpq,
    h.capacity, h.room, h.receives.congr rfl rfl, h.rcvCapacity, h.window⟩, ⟨?_, ?_⟩, rfl⟩
  · rw [afterPacket_state, h.nextState_eq h.established rfl]
  · rw [afterPacket_mngr, payload_append, payload_singleton, ← List.append_assoc, hout.emitted,
      h.sends.packetOut_text hpq, ws.emitted_send]
  · rw [afterPacket_mngr]
    refine hout.channel.concat (h.plain_packetOut pq) (fun htext => ?_) ?_
    · rw [h.sends.packetOut_seqNo htext, hlen]
    · rw [packetOut_ackNo, h.receives.next]

/-- **An application call.**  A read may move RCV.NXT and with it the
acknowledgement numbers to come; a write makes the stream longer.  Neither
sends. -/
theorem Side.appCall {c : AppCall} (h : Side base base' ws wr t)
    (hout : Outgoing base base' got lo ws wr t) (hok : OneRead t c) :
    ∃ t' ws' wr', t.appCall c = .ok t' ∧ Side base base' ws' wr' t' ∧
      Outgoing base base' got lo ws' wr' t' ∧ ws'.acked = ws.acked ∧ wr'.stream = wr.stream ∧
      t'.mngr = t.mngr := by
  obtain ⟨t', ht'⟩ := hok.total
  have hopen := h.toOpen.appCall ht'
  have hreader := h.oneReader.appCall hok ht'
  have hstate : t'.state = .established := by
    rw [(appCall_control h.toControlled ht').2]; exact h.established
  have hcases := appCall_cases ht'
  obtain ⟨-, wr', hreceives, hstream, hhanded⟩ := hcases.receives h.receives
  cases hcases with
  | waits size cb hempty =>
      exact ⟨_, ws, wr', ht', ⟨hopen, hstate, hreader, h.sends.congr rfl rfl, h.capacity, h.room,
        hreceives, h.rcvCapacity, h.window⟩, ⟨hout.emitted, hout.channel.mono_hi hhanded⟩, rfl,
        hstream, rfl⟩
  | reads size cb hdata =>
      exact ⟨_, ws, wr', ht', ⟨hopen, hstate, hreader, h.sends.congr rfl rfl, h.capacity, h.room,
        hreceives, h.rcvCapacity, h.window⟩, ⟨hout.emitted, hout.channel.mono_hi hhanded⟩, rfl,
        hstream, rfl⟩
  | writes buf cb pq hpq hfit =>
      refine ⟨_, ws.write buf, wr', ht', ⟨hopen, hstate, hreader, h.sends.afterWrite hpq hfit cb,
        ?_, h.room, hreceives, h.rcvCapacity, h.window⟩, ⟨?_, hout.channel.mono_hi hhanded⟩, rfl,
        hstream, rfl⟩
      · intro pq' hpq'
        cases hpq'
        exact h.capacity pq hpq
      · rw [ws.emitted_write]; exact hout.emitted

theorem Side.enterTask (h : Side base base' ws wr t) (k : ℕ) (task : Task) :
    Side base base' ws wr (t.enterTask k task) := by
  refine ⟨h.toOpen.enterTask k task, by rw [enterTask_state]; exact h.established,
    h.oneReader.enterTask k task, h.sends.congr (by simp) (by simp), ?_, h.room,
    h.receives.congr (by simp) (by simp), ?_, ?_⟩
  · rw [enterTask_send]; exact h.capacity
  · rw [enterTask_rcv]; exact h.rcvCapacity
  · rw [enterTask_rcv]; exact h.window

end Side

/-! ## Local events

Calls, handlers, packets: the channel grows at its end. -/

/-- What the application may do to its side: reads and writes once it holds the
block, one read at a time, writes that fit the send queue.  Segments arrive
from the other side only. -/
def LocalOk : Tcb → Event → Prop :=
  EventOk (fun _ _ => False) fun t c => Connected t ∧ OneRead t c

instance (t : Tcb) (e : Event) : Decidable (t.LocalOk e) :=
  inferInstanceAs (Decidable (EventOk (fun _ _ => False) (fun t c => Connected t ∧ OneRead t c) t e))

/-- A side and its channel, with what a local event does not touch held fixed. -/
def Local (base base' : BitVec 32) (got : List Byte) (lo acked : ℕ) (stream : List Byte)
    (mngr : List TcpPacket) (t : Tcb) : Prop :=
  ∃ ws wr, Side base base' ws wr t ∧ Outgoing base base' got lo ws wr t ∧ ws.acked = acked ∧
    wr.stream = stream ∧ mngr <+: t.mngr

/-- **A local event.**  It does not abort; the channel only grows, at its end. -/
theorem local_step (isn : BitVec 32) {base base' : BitVec 32} {got : List Byte} {lo acked : ℕ}
    {stream : List Byte} (mngr : List TcpPacket) {t : Tcb} {e : Event}
    (h : Local base base' got lo acked stream mngr t) (hok : LocalOk t e) :
    ∃ t', step isn t e = .ok t' ∧ Local base base' got lo acked stream mngr t' := by
  refine step_total ?_ ?_ ?_ ?_ ?_ t e h hok
  · exact fun _ _ _ hfalse => hfalse.elim
  · rintro u c ⟨ws, wr, hside, hout, hacked, hstream, hmngr⟩ ⟨-, hcok⟩
    obtain ⟨u', ws', wr', hcall, hside', hout', hacked', hstream', hmngr'⟩ :=
      hside.appCall hout hcok
    exact ⟨u', hcall, ws', wr', hside', hout', hacked'.trans hacked, hstream'.trans hstream,
      hmngr'.symm ▸ hmngr⟩
  · rintro u k task ⟨ws, wr, hside, hout, hacked, hstream, hmngr⟩ -
    exact ⟨ws, wr, hside.enterTask k task,
      ⟨by rw [enterTask_mngr]; exact hout.emitted, by rw [enterTask_mngr]; exact hout.channel⟩,
      hacked, hstream, by rw [enterTask_mngr]; exact hmngr⟩
  · rintro u pq ⟨ws, wr, hside, hout, hacked, hstream, hmngr⟩ hpq
    obtain ⟨ws', hside', hout', hacked'⟩ := hside.afterPacket hout hpq
    exact ⟨ws', wr, hside', hout', hacked'.trans hacked, hstream,
      hmngr.trans (List.prefix_append _ _)⟩
  · rintro u k task ⟨ws, wr, hside, -⟩ -
    exact hside.toOpen.pq

/-! ## Delivery

The oldest packet leaves the channel, and the other block processes it. -/

/-- The sequence numbers a block uses, plus the receive window, stay below
`2 ^ 32`.  A block in LISTEN uses none.  This is where the comparisons that are
not modular are kept from wrapping. -/
def Bounded (t : Tcb) : Prop :=
  t.state ≠ .listen → t.send.state.seqNrUnack.toNat + 0xFAF0 < 2 ^ 32 ∧
    t.send.state.seqNrNext.toNat + 0xFAF0 < 2 ^ 32

instance (t : Tcb) : Decidable t.Bounded := inferInstanceAs (Decidable (_ → _))

/-- **The send side of an arriving segment** with an acknowledgement between
SND.UNA and SND.NXT: nothing is sent, and the number is confirmed or, where the
window test drops the segment, ignored. -/
theorem Side.process_sends {isn base base' : BitVec 32} {ws : SendWindow Byte}
    {wr : ReceiveWindow Byte} {t t' : Tcb} {seg : Segment} (h : Side base base' ws wr t)
    (hACK : seg.tcph.ACK = true) (hFIN : seg.tcph.FIN = false)
    (hlo : t.send.state.seqNrUnack ≤ seg.tcph.ackNo)
    (hhi : seg.tcph.ackNo ≤ t.send.state.seqNrNext) (hprocess : t.process isn seg = .ok t') :
    t'.mngr = t.mngr ∧ (∀ pq, t'.send.pq = some pq → pq.capacity ≤ 0xFAF0) ∧
      ∃ ws', Sends base ws' t' ∧ ws'.emitted = ws.emitted ∧
        (ws'.acked = ws.acked ∨
          ws'.acked = ws.acked + (seg.tcph.ackNo - t.send.state.seqNrUnack).toNat) := by
  have hacks : t.state.acksData = true := by rw [h.established]; rfl
  have hnot : ¬ seg.tcph.ackNo > t.send.state.seqNrNext := BitVec.not_lt.mpr hhi
  rcases h.toOpen.process_cases hprocess with
    ⟨-, rfl⟩ | ⟨-, hret⟩ | ⟨-, t₁, t₂, hnext, htext, hfin⟩
  · exact ⟨rfl, h.capacity, ws, h.sends, rfl, .inl rfl⟩
  · cases hret with
    | refused _ hstate => exact (h.toOpen.ne_synReceived hstate).elim
    | unsent _ _ _ _ _ hhi' _ => exact (hnot hhi').elim
    | lastAck _ hstate => rw [h.established] at hstate; cases hstate
  · cases hnext with
    | absent hno => rw [hACK] at hno; cases hno
    | accepted _ hstate => exact (h.toOpen.ne_synReceived hstate).elim
    | data _ _ pq hpq _ =>
        rw [ackNextState_of_acksData (h.toControlled.ackData hpq) hacks] at htext
        obtain ⟨hle, hsends⟩ := h.sends.ackData hpq hlo hhi
        -- Neither the text step nor, without FIN, the FIN step touches the send side.
        have hsend : t'.send = (t.ackData pq seg.tcph.ackNo).send ∧ t'.mngr = t.mngr ∧
            t'.trace.written = t.trace.written := by
          cases hfin with
          | ignored _ => cases htext <;> exact ⟨rfl, rfl, rfl⟩
          | closed hyes => rw [hFIN] at hyes; cases hyes
          | finWait hyes => rw [hFIN] at hyes; cases hyes
        refine ⟨hsend.2.1, fun pq' hpq' => ?_, _, hsends.congr hsend.1 hsend.2.2, rfl, .inr rfl⟩
        rw [hsend.1, ackData_pq] at hpq'
        cases hpq'
        exact h.capacity pq hpq
    | timeWait _ hstate => rw [h.established] at hstate; cases hstate
    | unsynchronized _ hstate => rw [h.established] at hstate; cases hstate

/-- The window test lets text pass that starts at or behind RCV.NXT, unless the
window wraps. -/
theorem tcpCheckSegment_text {t : Tcb} {tcph : TcpHeader} {seglen : BitVec 16}
    (hsync : t.state.synchronized = true) (hwindow : t.rcv.state.window = rcvWindow)
    (hlen : seglen ≠ 0) (hseq : t.rcv.state.next ≤ tcph.seqNo)
    (hwrap : t.rcv.state.next.toNat + 0xFAF0 < 2 ^ 32) :
    t.tcpCheckSegment tcph seglen = true := by
  have hpos : ¬ (rcvWindow = (0 : BitVec 16)) := by decide
  have hwide : rcvWindow.setWidth 32 = (0xFAF0 : BitVec 32) := by decide
  have hne : t.rcv.state.next + 0xFAF0 ≠ 0 := by
    intro h
    have hnat := congrArg BitVec.toNat h
    rw [BitVec.toNat_add] at hnat
    have hlit : (0xFAF0 : BitVec 32).toNat = 0xFAF0 := rfl
    have hzero : (0 : BitVec 32).toNat = 0 := rfl
    omega
  simp only [tcpCheckSegment, hsync, hwindow, hwide, hpos, hlen, and_false, false_and, if_true,
    if_false, decide_eq_true_eq]
  exact .inl ⟨hseq, hne⟩

section Deliver

variable {base base' : BitVec 32} {ws ws' : SendWindow Byte} {wr wr' : ReceiveWindow Byte}
  {s r : Tcb} {pkt : TcpPacket} {rest : List TcpPacket}

/-- **The oldest packet fits.**  What the receiver has, plus the text, is part
of what was sent; and what readers have got covers what the sender knows to be
confirmed. -/
theorem Outgoing.text_le (hs : Side base base' ws wr s) (hr : Side base' base ws' wr' r)
    (hout : Outgoing base base' wr'.stream ws'.acked ws wr s)
    (hback : Outgoing base' base wr.stream ws.acked ws' wr' r) (hmngr : s.mngr = pkt :: rest) :
    wr'.stream.length + pkt.skb.text.length ≤ ws.sent ∧
      r.rcv.pq.size + pkt.skb.text.length ≤ r.rcv.pq.capacity := by
  have hemitted := congrArg List.length hout.emitted
  rw [hmngr, ws.emitted_length, List.length_append, payload, List.map_cons, List.flatten_cons,
    List.length_append] at hemitted
  have hle := hback.channel.lo_le_hi
  have hstream := hs.stream_le
  have hsent := ws.sent_le
  have hsum := wr'.handed_add_buffered
  have hcap := hr.rcvCapacity
  rw [CircularBuffer.size_eq, hr.receives.buffered]
  exact ⟨by omega, by omega⟩

/-- Its acknowledgement lies between SND.UNA and SND.NXT of the receiver. -/
theorem Side.ack_range (hr : Side base' base ws' wr' r)
    (hback : Outgoing base' base wr.stream ws.acked ws' wr' r) {k : ℕ} {ackNo : BitVec 32}
    (hlo : ws'.acked ≤ k) (hhi : k ≤ wr.handed) (hack : ackNo = base' + BitVec.ofNat 32 k) :
    k ≤ ws'.sent ∧ r.send.state.seqNrUnack ≤ ackNo ∧ ackNo ≤ r.send.state.seqNrNext ∧
      (ackNo - r.send.state.seqNrUnack).toNat = k - ws'.acked := by
  have hemitted := congrArg List.length hback.emitted
  rw [ws'.emitted_length, List.length_append] at hemitted
  have hhanded := wr.handed_le
  have hk : k ≤ ws'.sent := by omega
  have hsent := hr.toNat_add hk
  refine ⟨hk, ?_, ?_, ?_⟩
  · rw [hr.sends.unack, hack, BitVec.le_def, hsent, hr.toNat_add ws'.acked_le]
    omega
  · rw [hr.sends.next, hack, BitVec.le_def, hsent, hr.toNat_add le_rfl]
    omega
  · have hstream := hr.stream_le
    have hle := ws'.sent_le
    rw [hr.sends.unack, hack, SerialNumber.toNat_add_ofNat_sub base' hlo (by omega)]

/-- Text at the frontier passes the window test and the guard.  The window test
needs `Bounded`: it adds the window to RCV.NXT and compares. -/
theorem Side.takes_text (hs : Side base base' ws wr s) (hr : Side base' base ws' wr' r)
    (hbs : Bounded s) (hplain : Plain pkt) (hne : pkt.skb.text ≠ [])
    (hle : wr'.stream.length + pkt.skb.text.length ≤ ws.sent)
    (hseq : pkt.skb.tcph.seqNo = base + BitVec.ofNat 32 wr'.stream.length)
    (hhi : pkt.skb.tcph.ackNo ≤ r.send.state.seqNrNext) : r.takes pkt.skb = true := by
  have hsum := wr'.handed_add_buffered
  have hseqNat : pkt.skb.tcph.seqNo.toNat = base.toNat + wr'.stream.length := by
    rw [hseq]; exact hs.toNat_add (by omega)
  have hnextNat : r.rcv.state.next.toNat = base.toNat + wr'.handed := by
    rw [hr.receives.next]; exact hs.toNat_add (by omega)
  have hnxt : s.send.state.seqNrNext.toNat = base.toNat + ws.sent := by
    rw [hs.sends.next]; exact hs.toNat_add le_rfl
  have hbound := (hbs (by rw [hs.established]; simp)).2
  have hpos := List.length_pos_of_ne_nil hne
  have hlen : BitVec.ofNat 16 pkt.skb.text.length ≠ 0 := by
    intro hzero
    have hnat := congrArg BitVec.toNat hzero
    rw [BitVec.toNat_ofNat, Nat.mod_eq_of_lt hplain.length] at hnat
    simp at hnat
    exact hne hnat
  have hcheck := tcpCheckSegment_text hr.toOpen.synchronized hr.window hlen
    (show r.rcv.state.next ≤ pkt.skb.tcph.seqNo by rw [BitVec.le_def]; omega) (by omega)
  have hnot : ¬ pkt.skb.tcph.ackNo > r.send.state.seqNrNext := BitVec.not_lt.mpr hhi
  have hsize : r.rcv.pq.size = wr'.buffered.length := by
    rw [CircularBuffer.size_eq, hr.receives.buffered]
  simp only [takes, handles, reachesAckStep, hcheck, hplain.RST, hplain.SYN, hnot, acceptsText,
    hr.established, TcpState.takesText, textGuard, decide_false, Bool.and_false, Bool.not_false,
    Bool.and_true, Bool.and_self, Bool.true_and, Bool.and_eq_true, decide_eq_true_eq]
  exact ⟨hpos, by omega⟩

/-- **Delivering the oldest packet of a channel.**  The receiver does not
abort, and both sides and both channels are kept.

Its text, if it has any, is the next of the stream and is taken; its
acknowledgement is confirmed, or ignored where the window test turns an empty
packet away; and nothing is sent in answer. -/
theorem Side.deliver (isn : BitVec 32) (hs : Side base base' ws wr s) (hr : Side base' base ws' wr' r)
    (hout : Outgoing base base' wr'.stream ws'.acked ws wr s)
    (hback : Outgoing base' base wr.stream ws.acked ws' wr' r) (hbs : Bounded s) (hbr : Bounded r)
    (hmngr : s.mngr = pkt :: rest) :
    ∃ r' ws'' wr'', r.process isn pkt.skb = .ok r' ∧ Side base' base ws'' wr'' r' ∧
      Outgoing base base' wr''.stream ws''.acked ws wr { s with mngr := rest } ∧
      Outgoing base' base wr.stream ws.acked ws'' wr'' r' ∧
      r'.mngr = r.mngr ∧ ws'.acked ≤ ws''.acked := by
  obtain ⟨htextLe, hfit⟩ := Outgoing.text_le hs hr hout hback hmngr
  have hchannel := hout.channel
  rw [hmngr] at hchannel
  obtain ⟨hplain, hseq, k, hlo, hack, hrest⟩ := hchannel
  obtain ⟨hk, hrangeLo, hrangeHi, hdiff⟩ := hr.ack_range hback hlo hrest.lo_le_hi hack
  obtain ⟨pq, hpq⟩ := hr.toOpen.pq
  obtain ⟨r', hr'⟩ : ∃ r', r.process isn pkt.skb = .ok r' :=
    process_total hr.toOpen.synchronized hpq (fun hne => (hr.oneReader.waiting hne).1)
      fun _ _ _ _ _ => hfit
  -- The send side of the receiver: what the packet acknowledges was sent.
  obtain ⟨hmngr', hcapacity, ws'', hsends, hemitted, hacked⟩ :=
    hr.process_sends hplain.ACK hplain.FIN hrangeLo hrangeHi hr'
  rw [hdiff] at hacked
  obtain ⟨wr'', heffect⟩ := hr.toOpen.receiveEffect hr.receives hr'
  obtain ⟨hwindow, hrcvCapacity⟩ := hr.toOpen.process_rcv hr'
  have hcloses : r.closes pkt.skb = false := by simp [closes, hplain.FIN]
  -- The receive side: text in order is taken.
  have hstream : wr''.stream = wr'.stream ++ pkt.skb.text := by
    rw [heffect.stream]
    by_cases hnil : pkt.skb.text = []
    · rw [hnil, List.append_nil, ite_self]
    · rw [if_pos (hs.takes_text hr hbs hplain hnil htextLe (hseq hnil) hrangeHi)]
  have hreceives := heffect.receives
  rw [hcloses] at hreceives
  have hnxt : r.send.state.seqNrNext.toNat = base'.toNat + ws'.sent := by
    rw [hr.sends.next]; exact hr.toNat_add le_rfl
  have hbound := (hbr (by rw [hr.established]; simp)).2
  have hacked_le : ws''.acked ≤ k := by omega
  refine ⟨r', ws'', wr'', hr', ⟨hr.toOpen.process hr', heffect.state.mpr ⟨hr.established, hcloses⟩,
    hr.oneReader.process hr.toOpen hr', hsends, hcapacity, by omega, hreceives,
    hr.rcvCapacity.trans hrcvCapacity, hwindow.trans hr.window⟩, ⟨?_, ?_⟩, ⟨?_, ?_⟩, hmngr',
    by omega⟩
  · have hemit := hout.emitted
    rw [hmngr, payload, List.map_cons, List.flatten_cons, ← List.append_assoc] at hemit
    rw [hstream]
    exact hemit
  · rw [hstream, List.length_append]
    exact hrest.mono_lo hacked_le
  · rw [hmngr', hemitted]; exact hback.emitted
  · rw [hmngr']
    exact hback.channel.mono_hi heffect.handed

end Deliver

end Tcb

end Mstack
