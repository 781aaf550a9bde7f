import Mstack.Tcp.ReceiveStream

/-!
# Nothing is lost on the way to the reader

Between the guard of the text step and the buffer of a reader a byte may wait
in `rcv_.pq`, or go to a reader directly, or be split off from a segment of
which the front goes to a reader.  Reads and segments have any sizes, and
handlers run in any order.

`receive_buffer_conservation`: with at most one read outstanding,

* the bytes copied into reader buffers followed by `rcv_.pq` are the texts that
  passed the guard of the text step, in arrival order;
* RCV.NXT counts the bytes copied;
* every packet acknowledges RCV.NXT.

And no event aborts: the assertion that no reader waits while bytes are
buffered never fails, nor does the one about the capacity of the queue, for
segments that fit it.

### Outline

* `AcksNext` — packets added between two states acknowledge RCV.NXT.  It is a
  relation between the states, since RCV.NXT moves while old packets stay.
* `Ready` — the block is in ESTABLISHED, with one reader at most; no admissible
  event aborts.
* `Conserves` — and it represents a receive window.  This is the invariant.

### What is load-bearing

One reader at a time.  With two the equation itself still holds, but the text
step may abort: the first reader gets the front of a segment, the rest is
queued, and the second reader still waits when the next segment comes
(`Tcp.Readers`).
-/

namespace Mstack

namespace Tcb

open EventSystem (bind_eq_ok Admitted)

/-! ## What a packet acknowledges

`make_packet` reads RCV.NXT when it is called, and the steps that move RCV.NXT
do so before or behind. -/

/-- Between `t` and `t'` packets were only added, and each acknowledges the
RCV.NXT of `t'`. -/
def AcksNext (t t' : Tcb) : Prop :=
  ∃ new, t'.mngr = t.mngr ++ new ∧
    ∀ pkt ∈ new, pkt.skb.tcph.ACK = true ∧ pkt.skb.tcph.ackNo = t'.rcv.state.next

theorem AcksNext.of_mngr_eq {t t' : Tcb} (h : t'.mngr = t.mngr) : AcksNext t t' :=
  ⟨[], by simp [h], by simp⟩

theorem AcksNext.packet {t v : Tcb} (u : Tcb) (pq : CircularBuffer Byte) (hmngr : u.mngr = t.mngr)
    (hv : v.mngr = (u.afterPacket pq).mngr) (hrcv : v.rcv = u.rcv) : AcksNext t v := by
  refine ⟨[u.packetOut pq], by rw [hv, afterPacket_mngr, hmngr], fun pkt hpkt => ?_⟩
  rw [List.mem_singleton.mp hpkt, packetOut_ackNo, hrcv]
  exact ⟨rfl, rfl⟩

/-- In TIME-WAIT neither text nor FIN has an effect. -/
theorem text_fin_of_timeWait {t t₂ t' : Tcb} {seg : Segment} (hs : t.state = .timeWait)
    (htext : TextOutcome t seg t₂) (hfin : FinOutcome t₂ seg t') : t' = t := by
  have hno : t.acceptsText seg = false := by simp [acceptsText, hs, TcpState.takesText]
  cases htext with
  | ignored _ =>
      cases hfin with
      | ignored _ => rfl
      | closed _ hstate => rw [hs] at hstate; simp at hstate
      | finWait _ hstate => rw [hs] at hstate; simp at hstate
  | delivered hyes => rw [hno] at hyes; cases hyes
  | appended hyes => rw [hno] at hyes; cases hyes

theorem FinOutcome.acksNext {t t' : Tcb} {seg : Segment} (h : FinOutcome t seg t') :
    AcksNext t t' := by
  cases h with
  | ignored hno => exact .of_mngr_eq rfl
  | closed hFIN hstate pq hpq =>
      exact .packet ((t.advanceRcvNext 1).setNextState .closeWait) pq rfl rfl rfl
  | finWait hFIN hstate => exact .of_mngr_eq rfl

/-- **A packet built while a segment is processed acknowledges RCV.NXT.**  The
FIN step moves RCV.NXT before it sends, and in every other case RCV.NXT stays. -/
theorem Open.process_acksNext {isn : BitVec 32} {t t' : Tcb} {seg : Segment} (hopen : Open t)
    (hprocess : t.process isn seg = .ok t') : AcksNext t t' := by
  have hquiet : ∀ {t₁ t₂ : Tcb}, TextOutcome t₁ seg t₂ → FinOutcome t₂ seg t' →
      t₁.mngr = t.mngr → AcksNext t t' := by
    intro t₁ t₂ htext hfin hmngr
    obtain ⟨new, hnew, hacks⟩ := hfin.acksNext
    exact ⟨new, by rw [hnew, htext.mngr_eq, hmngr], hacks⟩
  rcases hopen.process_cases hprocess with
    ⟨-, rfl⟩ | ⟨-, hret⟩ | ⟨-, t₁, t₂, hnext, htext, hfin⟩
  · exact .of_mngr_eq rfl
  · cases hret with
    | refused hACK hstate => exact .of_mngr_eq rfl
    | unsent hACK hstate pq pq' hpq hhi hpq' =>
        exact .packet (t.ackData pq seg.tcph.ackNo) pq' rfl rfl rfl
    | lastAck hACK hstate => exact .of_mngr_eq rfl
  · cases hnext with
    | absent hACK => exact hquiet htext hfin rfl
    | accepted hACK hstate => exact hquiet htext hfin rfl
    | data hACK hstate pq hpq hhi =>
        rw [ackNextState_of_acksData (hopen.toControlled.ackData hpq) hstate] at htext
        exact hquiet htext hfin rfl
    | timeWait hACK hstate pq hpq =>
        have hs : (t.afterPacket pq).state = .timeWait := by
          rw [afterPacket_state, hopen.nextState_eq hstate rfl]
        rw [text_fin_of_timeWait hs htext hfin]
        exact .packet t pq rfl rfl rfl
    | unsynchronized hACK hstate => exact hquiet htext hfin rfl

theorem appCalls_mngr {t t' : Tcb} {calls : List AppCall} (h : t.appCalls calls = .ok t') :
    t'.mngr = t.mngr := by
  refine appCalls_induction (P := fun u => u.mngr = t.mngr) ?_ rfl h
  intro u c u' hu hcall
  cases appCall_cases hcall <;> exact hu

/-- **Every packet acknowledges RCV.NXT.**  Those that complete a read are
built when its handler runs, and RCV.NXT was moved when the bytes were copied. -/
theorem Open.step_acksNext {isn : BitVec 32} {t t' : Tcb} {e : Event} (hopen : Open t)
    (hstep : step isn t e = .ok t') : AcksNext t t' := by
  cases e with
  | process seg => exact hopen.process_acksNext hstep
  | call c =>
      cases appCall_cases hstep <;> exact .of_mngr_eq rfl
  | task k calls =>
      cases hk : t.ioCtx[k]? with
      | none =>
          rw [step_task_none calls hk] at hstep
          cases hstep
          exact .of_mngr_eq rfl
      | some task =>
          rw [step_task_some calls hk] at hstep
          cases task with
          | connectionEstablished =>
              exact .of_mngr_eq (by rw [appCalls_mngr hstep, enterTask_mngr])
          | writeDone cb len =>
              exact .of_mngr_eq (by rw [appCalls_mngr hstep, enterTask_mngr])
          | readDone cb len =>
              obtain ⟨u, hu, hsend⟩ := bind_eq_ok.mp hstep
              obtain ⟨pq, -, rfl⟩ := makeAndSendPkt_ok.mp hsend
              exact .packet u pq (by rw [appCalls_mngr hu, enterTask_mngr]) rfl rfl
          | sendLoop =>
              -- The loop does not touch the receive side, so all its packets agree.
              have key := sendLoop_preserves (P := fun u => AcksNext t u ∧ u.rcv = t.rcv) ?_
                ⟨.of_mngr_eq (by simp), by simp⟩ hstep
              · exact key.1
              · rintro u pq ⟨⟨new, hnew, hacks⟩, hrcv⟩ -
                refine ⟨⟨new ++ [u.packetOut pq], ?_, fun pkt hpkt => ?_⟩, hrcv⟩
                · rw [afterPacket_mngr, hnew, List.append_assoc]
                · rcases List.mem_append.mp hpkt with hpkt | hpkt
                  · exact hacks pkt hpkt
                  · rw [List.mem_singleton.mp hpkt]
                    exact ⟨rfl, rfl⟩

/-! ## The invariant

First without the window (`Ready`: nothing aborts), then with it (`Conserves`). -/

/-- A block in ESTABLISHED that has handed on nothing and has no read
outstanding. -/
structure FreshReceiver (irs : BitVec 32) (t : Tcb) : Prop where
  state : t.state = .established
  nextState : t.nextState = .established
  queue : ∃ pq, t.send.pq = some pq
  next : t.rcv.state.next = irs + 1
  copied : t.trace.copied = []
  accepted : t.trace.acceptedText = []
  idle : NoReadOutstanding t

theorem FreshReceiver.isOpen {irs : BitVec 32} {t : Tcb} (h : FreshReceiver irs t) : Open t := by
  obtain ⟨pq, hpq⟩ := h.queue
  exact .of_established h.state h.nextState hpq

theorem FreshReceiver.receives {irs : BitVec 32} {t : Tcb} (h : FreshReceiver irs t) :
    Receives (irs + 1) (ReceiveWindow.ofBuffer t.rcv.pq.data) t := by
  refine ⟨?_, rfl, ?_⟩
  · rw [handed, h.copied]; rfl
  · rw [h.next]; exact (BitVec.add_zero _).symm

theorem freshReceiver_established (isn irs : BitVec 32) (mss window : BitVec 16) :
    FreshReceiver irs (established isn irs mss window) :=
  ⟨rfl, rfl, ⟨_, rfl⟩, rfl, rfl, rfl, rfl, by simp [established, create]⟩

/-- What the peer may send here: no FIN, and text within the capacity of the
queue.  The announced window promises that capacity, and the code does not
check it (`Tcp.Overrun`). -/
def FitsQueue (t : Tcb) (seg : Segment) : Prop :=
  seg.tcph.FIN = false ∧
    (t.takes seg = true → t.onDataReceive = [] →
      t.rcv.pq.size + seg.text.length ≤ t.rcv.pq.capacity)

/-- A block in ESTABLISHED with at most one read outstanding: no admissible
event aborts. -/
structure Ready (t : Tcb) : Prop extends Open t where
  established : t.state = .established
  oneReader : OneReader t

section Ready

variable {t : Tcb}

theorem Ready.process {isn : BitVec 32} {seg : Segment} (h : Ready t) (hok : FitsQueue t seg) :
    ∃ t', t.process isn seg = .ok t' ∧ Ready t' := by
  obtain ⟨pq, hpq⟩ := h.toOpen.pq
  obtain ⟨t', ht'⟩ : ∃ t', t.process isn seg = .ok t' := by
    refine process_total h.toOpen.synchronized hpq (fun hne => (h.oneReader.waiting hne).1) ?_
    intro u hreach hack hyes hreaders
    refine hok.2 ?_ hreaders
    rcases h.toOpen.ack_cases hreach hack with ⟨v, hflow, -⟩ | ⟨v, hflow, hs, hrcv, -, -, -, hh⟩ <;>
      cases hflow
    rw [acceptsText_congr hs hrcv] at hyes
    rcases hh with hh | htw
    · simp [takes, hh, hyes]
    · rw [h.established] at htw; cases htw
  refine ⟨t', ht', h.toOpen.process ht', ?_, h.oneReader.process h.toOpen ht'⟩
  obtain ⟨base, w, hw⟩ := t.exists_receives
  obtain ⟨w', heffect⟩ := h.toOpen.receiveEffect hw ht'
  exact heffect.state.mpr ⟨h.established, by simp [closes, hok.1]⟩

theorem Ready.appCall {c : AppCall} (h : Ready t) (hok : OneRead t c) :
    ∃ t', t.appCall c = .ok t' ∧ Ready t' := by
  obtain ⟨t', ht'⟩ := hok.total
  refine ⟨t', ht', h.toOpen.appCall ht', ?_, h.oneReader.appCall hok ht'⟩
  rw [(appCall_control h.toControlled ht').2]
  exact h.established

theorem Ready.enterTask (h : Ready t) (k : ℕ) (task : Task) : Ready (t.enterTask k task) :=
  ⟨h.toOpen.enterTask k task, by rw [enterTask_state]; exact h.established,
    h.oneReader.enterTask k task⟩

theorem Ready.afterPacket {pq : CircularBuffer Byte} (h : Ready t) (hpq : t.send.pq = some pq) :
    Ready (t.afterPacket pq) := by
  refine ⟨h.toOpen.afterPacket hpq, ?_, h.oneReader.afterPacket pq⟩
  rw [afterPacket_state, h.nextState_eq h.established rfl]

end Ready

theorem step_ready {isn : BitVec 32} {t : Tcb} {e : Event} (h : Ready t)
    (hok : EventOk FitsQueue OneRead t e) : ∃ t', step isn t e = .ok t' ∧ Ready t' := by
  refine step_total ?_ ?_ ?_ ?_ ?_ t e h hok
  · exact fun t seg h hok => h.process hok
  · exact fun t c h hok => h.appCall hok
  · exact fun t k task h _ => h.enterTask k task
  · exact fun t pq h hpq => h.afterPacket hpq
  · exact fun t k task h _ => h.toOpen.pq

/-- **The conservation invariant.**  What has arrived is what was buffered at
the start and then the accepted texts. -/
structure Conserves (base : BitVec 32) (buffer : List Byte) (t : Tcb) : Prop extends Open t where
  established : t.state = .established
  oneReader : OneReader t
  receives : ∃ w, Receives base w t ∧ w.stream = buffer ++ t.accepted

section Conserves

variable {base : BitVec 32} {buffer : List Byte} {t : Tcb}

theorem Conserves.ready (h : Conserves base buffer t) : Ready t :=
  ⟨h.toOpen, h.established, h.oneReader⟩

theorem Ready.conserves (h : Ready t)
    (hreceives : ∃ w, Receives base w t ∧ w.stream = buffer ++ t.accepted) :
    Conserves base buffer t :=
  ⟨h.toOpen, h.established, h.oneReader, hreceives⟩

theorem Conserves.process {isn : BitVec 32} {seg : Segment} (h : Conserves base buffer t)
    (hok : FitsQueue t seg) : ∃ t', t.process isn seg = .ok t' ∧ Conserves base buffer t' := by
  obtain ⟨t', ht', hready⟩ := h.ready.process hok
  refine ⟨t', ht', hready.conserves ?_⟩
  obtain ⟨w, hw, hstream⟩ := h.receives
  obtain ⟨w', heffect⟩ := h.toOpen.receiveEffect hw ht'
  have hcloses : t.closes seg = false := by simp [closes, hok.1]
  have hreceives := heffect.receives
  rw [hcloses] at hreceives
  refine ⟨w', hreceives, ?_⟩
  rw [heffect.stream, accepted, heffect.accepted, hstream, accepted]
  split <;> simp

theorem Conserves.appCall {c : AppCall} (h : Conserves base buffer t) (hok : OneRead t c) :
    ∃ t', t.appCall c = .ok t' ∧ Conserves base buffer t' := by
  obtain ⟨t', ht', hready⟩ := h.ready.appCall hok
  obtain ⟨w, hw, hstream⟩ := h.receives
  obtain ⟨haccepted, w', hw', hstream', -⟩ := (appCall_cases ht').receives hw
  refine ⟨t', ht', hready.conserves ⟨w', hw', ?_⟩⟩
  rw [hstream', hstream, accepted, accepted, haccepted]

theorem Conserves.enterTask (h : Conserves base buffer t) (k : ℕ) (task : Task) :
    Conserves base buffer (t.enterTask k task) := by
  obtain ⟨w, hw, hstream⟩ := h.receives
  refine (h.ready.enterTask k task).conserves ⟨w, hw.congr (by simp) (by simp), ?_⟩
  rw [hstream, accepted, accepted, enterTask_acceptedText]

theorem Conserves.afterPacket {pq : CircularBuffer Byte} (h : Conserves base buffer t)
    (hpq : t.send.pq = some pq) : Conserves base buffer (t.afterPacket pq) := by
  obtain ⟨w, hw, hstream⟩ := h.receives
  exact (h.ready.afterPacket hpq).conserves ⟨w, hw.congr rfl rfl, hstream⟩

end Conserves

theorem step_conserves {isn base : BitVec 32} {buffer : List Byte} {t : Tcb} {e : Event}
    (h : Conserves base buffer t) (hok : EventOk FitsQueue OneRead t e) :
    ∃ t', step isn t e = .ok t' ∧ Conserves base buffer t' := by
  refine step_total ?_ ?_ ?_ ?_ ?_ t e h hok
  · exact fun t seg h hok => h.process hok
  · exact fun t c h hok => h.appCall hok
  · exact fun t k task h _ => h.enterTask k task
  · exact fun t pq h hpq => h.afterPacket hpq
  · exact fun t k task h _ => h.toOpen.pq

/-- The text an event adds to what has passed the guard. -/
def textTaken (t : Tcb) : Event → List (List Byte)
  | .process seg => if t.takes seg then [seg.text] else []
  | .call _ => []
  | .task _ _ => []

/-- Nothing but an arriving segment passes the guard. -/
theorem Open.step_accepted {isn : BitVec 32} {t t' : Tcb} {e : Event} (hopen : Open t)
    (hstep : step isn t e = .ok t') :
    t'.trace.acceptedText = t.trace.acceptedText ++ t.textTaken e := by
  cases e with
  | process seg =>
      obtain ⟨base, w, hw⟩ := t.exists_receives
      obtain ⟨w', heffect⟩ := hopen.receiveEffect hw hstep
      rw [heffect.accepted, textTaken]
      split <;> simp
  | call c =>
      rw [textTaken, List.append_nil]
      cases appCall_cases hstep <;> rfl
  | task k calls =>
      rw [textTaken, List.append_nil]
      refine task_induction (P := fun u => u.trace.acceptedText = t.trace.acceptedText) ?_ ?_ ?_ rfl
        hstep
      · intro u c u' hu hcall
        cases appCall_cases hcall <;> exact hu
      · intro u k task hu _
        rw [enterTask_acceptedText, hu]
      · exact fun u pq hu _ => hu

/-- **Receive-buffer conservation.**  Every run of an ESTABLISHED block over
segments without FIN that fit the queue, with at most one read outstanding and
reads of any size, goes through.  In the state it reaches, the bytes copied
into reader buffers followed by `rcv_.pq` are what was buffered at the start
followed by the texts that passed the guard, in arrival order; RCV.NXT is IRS +
1 plus the number of bytes copied; and each event adds to the accepted texts
exactly that of the segment which passes the guard, and sends only packets that
acknowledge RCV.NXT. -/
theorem receive_buffer_conservation {isn irs : BitVec 32} {t₀ : Tcb} {es : List Event}
    (hfresh : FreshReceiver irs t₀) (hok : RunOk isn FitsQueue OneRead t₀ es) :
    ∃ t, run isn t₀ es = .ok t ∧
      t.handed ++ t.rcv.pq.data = t₀.rcv.pq.data ++ t.accepted ∧
      t.rcv.state.next = irs + 1 + BitVec.ofNat 32 t.handed.length ∧
      ∀ e t', step isn t e = .ok t' →
        t'.trace.acceptedText = t.trace.acceptedText ++ t.textTaken e ∧ AcksNext t t' := by
  have hinit : Conserves (irs + 1) t₀.rcv.pq.data t₀ := by
    refine ⟨hfresh.isOpen, hfresh.state, .of_nil hfresh.idle.1, _, hfresh.receives, ?_⟩
    rw [accepted, hfresh.accepted]
    exact (List.append_nil _).symm
  obtain ⟨t, hrun, h⟩ := EventSystem.run_total
    (fun _ _ hs hoke => step_conserves hs hoke) hinit hok
  obtain ⟨w, hw, hstream⟩ := h.receives
  refine ⟨t, hrun, ?_, ?_, fun e t' hstep =>
    ⟨h.toOpen.step_accepted hstep, h.toOpen.step_acksNext hstep⟩⟩
  · rw [hw.received, hstream]
  · rw [hw.next, hw.copied, w.delivered_length]

/-- A read of two bytes that waits, a segment of three, the completion of the
read, and in its callback a read of the third byte. -/
def readInPieces : List Event :=
  [.call (.read 2 1),
    .process ⟨{ TcpHeader.bare with ACK := true, seqNo := 101, ackNo := 8 }, [],
      [0x61, 0x62, 0x63]⟩,
    .task 0 [.read 16 2]]

theorem readInPieces_conserved :
    RunOk 7 FitsQueue OneRead (established 7 100 2 500) readInPieces ∧
    ∃ t, run 7 (established 7 100 2 500) readInPieces = .ok t ∧
      t.handed ++ t.rcv.pq.data = t.accepted ∧ t.accepted = [0x61, 0x62, 0x63] := by
  have hfresh := freshReceiver_established 7 100 2 500
  have hok : RunOk 7 FitsQueue OneRead (established 7 100 2 500) readInPieces := by
    refine .cons ⟨rfl, by simp [established, create]⟩ rfl ?_
    refine .cons ⟨rfl, fun _ h => by cases h⟩ rfl ?_
    refine .single fun task hk _ => ?_
    cases hk
    exact .single ⟨rfl, fun cb len hmem => by cases hmem⟩
  obtain ⟨t, hrun, hconserved, -⟩ := receive_buffer_conservation hfresh hok
  refine ⟨hok, t, hrun, hconserved, ?_⟩
  cases hrun
  rfl

end Tcb

end Mstack
