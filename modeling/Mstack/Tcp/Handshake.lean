import Mstack.Tcp.LifeCycle
import Mstack.Tcp.SendStream

/-!
# Soundness of the handshake

When may a block believe that its own SYN has been acknowledged?

In the RFC it may when it has left the handshake.  In the code there are three
ways out of the handshake without an acknowledgement of the SYN:

* in SYN-SENT the range test accepts SEG.ACK = SND.UNA, which is the ISN
  itself, and the comment on it asks for more;
* in SYN-RECEIVED the range test of the ACK step does the same;
* the FIN step takes a segment without ACK from SYN-RECEIVED to CLOSE-WAIT.

`AcksSyn` excludes these three, as a condition on the block and the segment.

### Main results

* `process_handshake` — a segment leaves the block in the handshake, or ends it
  with the SYN acknowledged by that very segment.
* `handshake_sound` — there is no fourth way, over whole runs; and a block that
  has come through the handshake sends its first byte under ISN + 1.
* `stale_synAck_establishes` — a SYN-ACK that acknowledges nothing opens the
  connection.

### What is load-bearing

`Handshaking` holds of the block until the handshake ends and is then exchanged
for `Sending`, the invariant of the send side.  The exchange needs SND.UNA and
SND.NXT **both** to be ISN + 1: with a stale acknowledgement SND.UNA is the ISN
and SND.NXT is not, so the first byte that is written counts as in flight
before it is sent.
-/

namespace Mstack

namespace Tcb

open EventSystem (bind_eq_ok Admitted)

/-- A block right after `start_connecting`. -/
def connecting (isn : BitVec 32) : Tcb :=
  (create default default .connecting .connecting default default).afterConnect isn

theorem opened_connecting (isn : BitVec 32) : Opened isn (connecting isn) :=
  .active _ _ _ _ (startConnecting_eq _ isn)

/-- **A segment that leaves a handshake state acknowledges the SYN.**  In
SYN-SENT a SYN-ACK that passes the range test does not have SEG.ACK = SND.UNA;
in SYN-RECEIVED the same holds of a segment that passes the range test of the
ACK step, and a segment without ACK has no FIN.  In every other state, and for
a segment the tests turn away, it says nothing. -/
def AcksSyn (t : Tcb) (seg : Segment) : Prop :=
  (t.state = .synSent → seg.tcph.SYN = true → seg.tcph.ACK = true →
    seg.tcph.ackNo ≤ t.send.state.seqNrNext → seg.tcph.ackNo ≠ t.send.state.seqNrUnack) ∧
  (t.state = .synReceived → t.reachesAckStep seg = true →
    (seg.tcph.ACK = true → seg.tcph.ackNo ≤ t.send.state.seqNrNext →
      seg.tcph.ackNo ≠ t.send.state.seqNrUnack) ∧
    (seg.tcph.ACK = false → seg.tcph.FIN = false))

/-- A block that has not left the handshake: past LISTEN its counters are ISN
and ISN + 1, and nothing has been written or sent. -/
structure Handshaking (isn : BitVec 32) (t : Tcb) : Prop where
  unack : t.state ≠ .listen → t.send.state.seqNrUnack = isn
  next : t.state ≠ .listen → t.send.state.seqNrNext = isn + 1
  queue : t.state = .synReceived → ∃ pq, t.send.pq = some pq ∧ pq.data = [] ∧
    pq.capacity < 2 ^ 16
  written : t.trace.written = []
  emitted : payload t.mngr = []

theorem Opened.handshaking {isn : BitVec 32} {t : Tcb} (h : Opened isn t) :
    Handshaking isn t := by
  cases h with
  | passive remoteEp localEp junkSend junkRcv =>
      constructor <;> simp [create]
  | active remoteEp localEp junkSend junkRcv h =>
      rw [startConnecting_eq] at h
      cases h
      constructor <;> simp [create, afterConnect, synOut, payload]

theorem Opened.rank_lt {isn : BitVec 32} {t : Tcb} (h : Opened isn t) : t.state.rank < 2 := by
  cases h with
  | passive => exact Nat.zero_lt_two
  | active remoteEp localEp junkSend junkRcv h =>
      rw [startConnecting_eq] at h
      cases h
      exact Nat.zero_lt_two

theorem Life.isOpen {isn : BitVec 32} {t : Tcb} (h : Life isn t) (hrank : 2 ≤ t.state.rank) :
    Open t := by
  refine ⟨h.toControlled, ?_⟩
  have hcontrol := h.control
  cases hs : t.state <;> simp_all [TcpState.rank, TcpState.pending]

/-- The one number besides the ISN that the range tests accept. -/
theorem eq_succ_of_range {isn ackNo : BitVec 32} (hlo : ¬ ackNo < isn) (hhi : ackNo ≤ isn + 1)
    (hne : ackNo ≠ isn) : ackNo = isn + 1 := by
  bv_omega

/-- A window of 16 bits. -/
theorem ofCapacity_window (window : BitVec 16) :
    (CircularBuffer.ofCapacity window.toNat : CircularBuffer Byte).capacity < 2 ^ 16 :=
  window.isLt

/-- The SYN-ACK of a passive open carries no text. -/
theorem Handshaking.passiveOpen {isn : BitVec 32} {t : Tcb} {seg : Segment}
    {opts : List TcpOption} (h : Handshaking isn t) :
    Handshaking isn ((t.acceptSyn isn seg opts).afterPacket
      (CircularBuffer.ofCapacity seg.tcph.window.toNat)) := by
  have htext : ((t.acceptSyn isn seg opts).packetOut
      (CircularBuffer.ofCapacity seg.tcph.window.toNat)).skb.text = [] := by
    rw [packetOut_text, appDataToSendLeft_of_empty rfl]
    rfl
  refine ⟨fun _ => rfl, fun _ => ?_, fun _ => ?_, h.written, ?_⟩
  · rw [afterPacket_next, appDataToSendLeft_of_empty rfl]
    exact BitVec.add_zero _
  · exact ⟨_, rfl, rfl, ofCapacity_window _⟩
  · rw [afterPacket_mngr, payload_append, payload_singleton, htext, List.append_nil]
    exact h.emitted

/-- The SYN-ACK of an active open, when it acknowledges the SYN. -/
theorem Handshaking.activeOpen {isn : BitVec 32} {t : Tcb} {seg : Segment}
    {opts : List TcpOption} (h : Handshaking isn t) (hstate : t.state = .synSent)
    (hack : seg.tcph.ackNo = isn + 1) :
    FreshSender isn ((t.acceptSynAck seg opts).afterPacket
      (CircularBuffer.ofCapacity seg.tcph.window.toNat)).listenFinish := by
  have htext : ((t.acceptSynAck seg opts).packetOut
      (CircularBuffer.ofCapacity seg.tcph.window.toNat)).skb.text = [] := by
    rw [packetOut_text, appDataToSendLeft_of_empty rfl]
    rfl
  refine ⟨rfl, rfl, hack, ?_, ⟨_, rfl, rfl, ofCapacity_window _⟩, h.written, ?_⟩
  · show ((t.acceptSynAck seg opts).afterPacket _).send.state.seqNrNext = _
    rw [afterPacket_next, appDataToSendLeft_of_empty rfl]
    show t.send.state.seqNrNext + 0 = _
    rw [h.next (by simp [hstate])]
    exact BitVec.add_zero _
  · show payload (t.mngr ++ [_]) = []
    rw [payload_append, payload_singleton, htext, List.append_nil]
    exact h.emitted

/-- The ACK of a passive open, when it acknowledges the SYN. -/
theorem Handshaking.ackSyn {isn : BitVec 32} {t : Tcb} {ackNo : BitVec 32}
    (h : Handshaking isn t) (hstate : t.state = .synReceived)
    (hlo : t.send.state.seqNrUnack ≤ ackNo) (hhi : ackNo ≤ t.send.state.seqNrNext)
    (hack : ackNo = isn + 1) : FreshSender isn (t.ackSyn ackNo) := by
  refine ⟨rfl, rfl, ?_, h.next (by simp [hstate]), h.queue hstate, h.written, h.emitted⟩
  show SerialNumber.clamp ackNo t.send.state.seqNrUnack t.send.state.seqNrNext = _
  rw [SerialNumber.clamp_of_le hlo hhi, hack]

/-- **An arriving segment during the handshake**: it stays a handshake, or it
ends with the SYN acknowledged by that segment.  In the second case the block
is a sender whose stream starts at ISN + 1. -/
theorem process_handshake {isn : BitVec 32} {t t' : Tcb} {seg : Segment} (hlife : Life isn t)
    (h : Handshaking isn t) (hrank : t.state.rank < 2) (hok : AcksSyn t seg)
    (hprocess : t.process isn seg = .ok t') :
    (t'.state.rank < 2 ∧ Handshaking isn t') ∨
      (2 ≤ t'.state.rank ∧ Sending (isn + 1) t' ∧ seg.tcph.ACK = true ∧
        seg.tcph.ackNo = isn + 1) := by
  obtain ⟨hlife', -⟩ := process_life hlife hprocess
  -- Before ESTABLISHED the only synchronized state is SYN-RECEIVED.
  have hsync : t.state.synchronized = true → t.state = .synReceived := by
    have hcontrol := hlife.control
    cases hs : t.state <;> simp_all [TcpState.synchronized, TcpState.rank, TcpState.pending]
  cases process_cases hprocess with
  | unchanged hno => exact .inl ⟨hrank, h⟩
  | passiveOpen hstate hRST hACK hSYN opts hopts =>
      exact .inl ⟨show TcpState.synReceived.rank < 2 by decide, h.passiveOpen⟩
  | activeOpen hstate hSYN hACK hlo hhi opts hopts =>
      -- `AcksSyn` leaves one number of the range: the one behind the SYN.
      have hne := hok.1 hstate hSYN hACK (BitVec.not_lt.mp hhi)
      rw [h.unack (by simp [hstate])] at hlo hne
      rw [h.next (by simp [hstate])] at hhi
      have hack := eq_succ_of_range hlo (BitVec.not_lt.mp hhi) hne
      exact .inr ⟨show 2 ≤ TcpState.established.rank by decide,
        (h.activeOpen hstate hack).sending, hACK, hack⟩
  | returned hs hreach hack =>
      cases hack with
      | refused hACK hstate hrange => exact .inl ⟨hrank, h⟩
      | unsent hACK hstate => rw [hsync hs] at hstate; cases hstate
      | lastAck hACK hstate => rw [hsync hs] at hstate; cases hstate
  | continued hs hreach hack htext hfin =>
      have hsyn := hsync hs
      obtain ⟨hackOk, hfinOk⟩ := hok.2 hsyn hreach
      cases hack with
      | absent hACK =>
          -- Without ACK the state is still SYN-RECEIVED: no text is taken, and there
          -- is no FIN.
          have hno : t.acceptsText seg = false := by
            simp [acceptsText, hsyn, TcpState.takesText]
          cases htext with
          | ignored _ =>
              cases hfin with
              | ignored _ => exact .inl ⟨hrank, h⟩
              | closed hFIN => rw [hfinOk hACK] at hFIN; cases hFIN
              | finWait hFIN => rw [hfinOk hACK] at hFIN; cases hFIN
          | delivered hyes => rw [hno] at hyes; cases hyes
          | appended hyes => rw [hno] at hyes; cases hyes
      | accepted hACK hstate hlo hhi =>
          have hne := hackOk hACK hhi
          have hack : seg.tcph.ackNo = isn + 1 := by
            rw [h.unack (by simp [hsyn])] at hne hlo
            rw [h.next (by simp [hsyn])] at hhi
            exact eq_succ_of_range (BitVec.not_lt.mpr hlo) hhi hne
          obtain ⟨-, w, hsend⟩ := (h.ackSyn hsyn hlo hhi hack).sending
          have hrank' : 2 ≤ t'.state.rank := by
            obtain ⟨hlife₁, -⟩ := hlife.ackSyn seg.tcph.ackNo hsyn
            obtain ⟨hlife₂, hstate₂, -⟩ := htext.life hlife₁
            obtain ⟨-, hle, -⟩ := hfin.life hlife₂
            rw [hstate₂] at hle
            exact hle
          exact .inr ⟨hrank', ⟨hlife'.isOpen hrank', hfin.sendStream (htext.sendStream hsend)⟩,
            hACK, hack⟩
      | data hACK hstate => rw [hsyn] at hstate; cases hstate
      | timeWait hACK hstate => rw [hsyn] at hstate; cases hstate
      | unsynchronized hACK hstate => rw [hsyn] at hstate; cases hstate

/-- The environment of a handshake: segments that acknowledge the SYN where
they end it, and calls behind the connection callback. -/
def HandshakeOk : Tcb → Event → Prop := EventOk AcksSyn fun t _ => Connected t

theorem HandshakeOk.life {t : Tcb} {e : Event} (h : HandshakeOk t e) : LifeEventOk t e :=
  h.mono (fun _ _ _ => trivial) fun _ _ hcon => hcon

/-- **An event during the handshake.**  Only a segment ends it: nothing is
posted, and the application does not hold the block. -/
theorem step_handshake {isn : BitVec 32} {t t' : Tcb} {e : Event} (hlife : Life isn t)
    (h : Handshaking isn t) (hrank : t.state.rank < 2) (hok : HandshakeOk t e)
    (hstep : step isn t e = .ok t') :
    (t'.state.rank < 2 ∧ Handshaking isn t') ∨
      (2 ≤ t'.state.rank ∧ Sending (isn + 1) t' ∧ ∃ seg, e = .process seg ∧
        seg.tcph.ACK = true ∧ seg.tcph.ackNo = isn + 1) := by
  obtain ⟨hio, hcon, -⟩ := hlife.idle hrank
  cases e with
  | process seg =>
      rcases process_handshake hlife h hrank hok hstep with h' | ⟨hrank', hsending, hACK, hack⟩
      · exact .inl h'
      · exact .inr ⟨hrank', hsending, seg, rfl, hACK, hack⟩
  | call c => exact (hcon hok).elim
  | task k calls =>
      rw [step_task_none calls (by rw [hio]; rfl)] at hstep
      cases hstep
      exact .inl ⟨hrank, h⟩

/-- The history contains an acknowledgement of the SYN: a segment with ACK set
and ISN + 1. -/
def SynAcknowledged (isn : BitVec 32) (past : List Event) : Prop :=
  ∃ seg, .process seg ∈ past ∧ seg.tcph.ACK = true ∧ seg.tcph.ackNo = isn + 1

/-- A block past the handshake has seen the acknowledgement. -/
theorem run_synAcknowledged {isn : BitVec 32} {t₀ t : Tcb} {es : List Event}
    (hopen : Opened isn t₀) (hok : Admitted (step isn) HandshakeOk t₀ es)
    (hrun : run isn t₀ es = .ok t) :
    Life isn t ∧ (2 ≤ t.state.rank → SynAcknowledged isn es) := by
  have hinv := EventSystem.run_history
    (P := fun past u => Life isn u ∧ (u.state.rank < 2 → Handshaking isn u) ∧
      (2 ≤ u.state.rank → SynAcknowledged isn past)) ?_
    ⟨hopen.life, fun _ => hopen.handshaking, ?_⟩ hok hrun
  · exact ⟨hinv.1, hinv.2.2⟩
  · rintro past u e u' ⟨hlife, hhand, hacked⟩ hoke hstep
    obtain ⟨hlife', hprogress⟩ := step_life hlife hoke.life hstep
    by_cases hrank : u.state.rank < 2
    · rcases step_handshake hlife (hhand hrank) hrank hoke hstep with
        ⟨hrank', h'⟩ | ⟨hrank', -, seg, rfl, hACK, hack⟩
      · exact ⟨hlife', fun _ => h', fun hle => by omega⟩
      · exact ⟨hlife', fun hlt => by omega, fun _ => ⟨seg, by simp, hACK, hack⟩⟩
    · have hle := hprogress.rank_le
      obtain ⟨seg, hmem, hACK, hack⟩ := hacked (by omega)
      exact ⟨hlife', fun hlt => by omega, fun _ => ⟨seg, by simp [hmem], hACK, hack⟩⟩
  · intro hle
    have hlt := hopen.rank_lt
    omega

/-- A block past the handshake sends a stream that starts at ISN + 1. -/
theorem run_sending {isn : BitVec 32} {t₀ t : Tcb} {es : List Event} (hopen : Opened isn t₀)
    (hok : Admitted (step isn) HandshakeOk t₀ es)
    (hack : Admitted (step isn) (EventOk HarmlessAck fun _ _ => True) t₀ es)
    (hrun : run isn t₀ es = .ok t) : 2 ≤ t.state.rank → Sending (isn + 1) t := by
  have hinv := EventSystem.run_invariant
    (P := fun u => Life isn u ∧ (u.state.rank < 2 → Handshaking isn u) ∧
      (2 ≤ u.state.rank → Sending (isn + 1) u)) ?_
    ⟨hopen.life, fun _ => hopen.handshaking, ?_⟩ (hok.and hack) hrun
  · exact hinv.2.2
  · rintro u e u' ⟨hlife, hhand, hsend⟩ ⟨hoke, hacke⟩ hstep
    obtain ⟨hlife', hprogress⟩ := step_life hlife hoke.life hstep
    by_cases hrank : u.state.rank < 2
    · rcases step_handshake hlife (hhand hrank) hrank hoke hstep with
        ⟨hrank', h'⟩ | ⟨hrank', hsending, -⟩
      · exact ⟨hlife', fun _ => h', fun hle => by omega⟩
      · exact ⟨hlife', fun hlt => by omega, fun _ => hsending⟩
    · have hle := hprogress.rank_le
      exact ⟨hlife', fun hlt => by omega,
        fun _ => step_sending (hsend (by omega)) hacke hstep⟩
  · intro hle
    have hlt := hopen.rank_lt
    omega

/-- The first segment with text is the beginning of the stream, under the first
number. -/
theorem SendStream.first_segment {base : BitVec 32} {w : SendWindow Byte} {t : Tcb}
    (h : SendStream base w t) {pre post : List TcpPacket} {pkt : TcpPacket}
    (hmngr : t.mngr = pre ++ pkt :: post) (hpre : payload pre = []) (htext : pkt.skb.text ≠ []) :
    pkt.skb.tcph.seqNo = base ∧ pkt.skb.text.head? = t.written.head? := by
  refine ⟨?_, ?_⟩
  · have hseq := h.labelled pre pkt post hmngr htext
    rw [hpre] at hseq
    rw [hseq]
    exact BitVec.add_zero _
  · have hemitted := h.emitted
    rw [hmngr, payload_append, hpre, List.nil_append, payload, List.map_cons,
      List.flatten_cons] at hemitted
    obtain ⟨b, rest, hb⟩ := List.exists_cons_of_ne_nil htext
    rw [hb] at hemitted ⊢
    rw [SendWindow.emitted, h.stream] at hemitted
    cases hwritten : t.written with
    | nil => rw [hwritten, List.take_nil] at hemitted; cases hemitted
    | cons c rest' =>
        rw [hwritten] at hemitted
        cases hsent : w.sent with
        | zero => rw [hsent] at hemitted; cases hemitted
        | succ n =>
            rw [hsent, List.take_succ_cons] at hemitted
            rw [List.head?_cons, List.head?_cons, (List.cons.inj hemitted).1]

/-- **Handshake soundness.**  Let every segment that leaves a handshake state
acknowledge the SYN.  Then in ESTABLISHED, CLOSE-WAIT and TIME-WAIT, and once
the connection callback is posted, the block has processed a segment with ACK
set and ISN + 1.  If moreover no acknowledgement takes unconfirmed bytes out of
the queue and fewer than `2 ^ 32 - 1` bytes were written, SND.UNA is not the
ISN, and the first segment with text starts with the first written byte and
carries ISN + 1. -/
theorem handshake_sound {isn : BitVec 32} {t₀ t : Tcb} {es : List Event}
    (hopen : Opened isn t₀) (hok : Admitted (step isn) HandshakeOk t₀ es)
    (hrun : run isn t₀ es = .ok t)
    (hpast : (t.state = .established ∨ t.state = .closeWait ∨ t.state = .timeWait) ∨
      0 < t.posted) :
    SynAcknowledged isn es ∧
    (Admitted (step isn) (EventOk HarmlessAck fun _ _ => True) t₀ es →
      t.written.length + 1 < 2 ^ 32 →
      t.send.state.seqNrUnack ≠ isn ∧
      ∀ pre pkt post, t.mngr = pre ++ pkt :: post → payload pre = [] → pkt.skb.text ≠ [] →
        pkt.skb.tcph.seqNo = isn + 1 ∧ pkt.skb.text.head? = t.written.head?) := by
  obtain ⟨hlife, hacked⟩ := run_synAcknowledged hopen hok hrun
  have hrank : 2 ≤ t.state.rank := by
    rcases hpast with (hs | hs | hs) | hposted
    · rw [hs]; decide
    · rw [hs]; decide
    · rw [hs]; decide
    · by_contra hlt
      have hzero := (hlife.idle (by omega)).2.2
      rw [hlife.posted_eq] at hposted
      omega
  refine ⟨hacked hrank, fun hharmless hlt => ?_⟩
  obtain ⟨-, w, h⟩ := run_sending hopen hok hharmless hrun hrank
  refine ⟨?_, fun pre pkt post hmngr hpre htext => h.first_segment hmngr hpre htext⟩
  have hacked_le := w.acked_le.trans w.sent_le
  rw [h.stream] at hacked_le
  have hunack : t.send.state.seqNrUnack = isn + BitVec.ofNat 32 (1 + w.acked) := by
    rw [h.unack, ← SerialNumber.add_ofNat_add]
    rfl
  rw [hunack]
  exact SerialNumber.add_ofNat_ne_self isn (by omega) (by omega)

/-- A SYN-ACK that acknowledges nothing: its number is the ISN. -/
def staleSynAck : Segment :=
  ⟨{ TcpHeader.bare with SYN := true, ACK := true, seqNo := 100, ackNo := 7, window := 500 },
    [], []⟩

/-- SYN-SENT takes it: the block is in ESTABLISHED and has posted its callback,
SND.UNA is the ISN, and no segment has acknowledged the SYN. -/
theorem stale_synAck_establishes : Opened 7 (connecting 7) ∧
    ∃ t, run 7 (connecting 7) [.process staleSynAck] = .ok t ∧ t.state = .established ∧
      t.posted = 1 ∧ t.send.state.seqNrUnack = 7 ∧
      ¬ SynAcknowledged 7 [.process staleSynAck] := by
  refine ⟨opened_connecting 7, _, rfl, rfl, rfl, rfl, ?_⟩
  rintro ⟨seg, hmem, -, hack⟩
  cases List.mem_singleton.mp hmem
  exact absurd hack (by decide)

/-- The SYN-ACK with the right number and an MSS, the connection callback, a
write in it, and the send loop. -/
def synAckThenWrite : List Event :=
  [.process { staleSynAck with
      tcph := { staleSynAck.tcph with ackNo := 8 }, opts := [2, 4, 5, 0xB4] },
    .task 0 [.write [0x61, 0x62] 1], .task 0 []]

/-- Of these events, only the SYN-ACK and the write can be inadmissible. -/
theorem synAckThenWrite_ok {segOk : Tcb → Segment → Prop} {callOk : Tcb → AppCall → Prop}
    (hseg : segOk (connecting 7) { staleSynAck with
      tcph := { staleSynAck.tcph with ackNo := 8 }, opts := [2, 4, 5, 0xB4] })
    (hcall : ∀ t c, Connected t → callOk t c) :
    Admitted (step 7) (EventOk segOk callOk) (connecting 7) synAckThenWrite := by
  refine .cons hseg rfl (.cons (fun task htask _ => ?_) rfl ?_)
  · obtain rfl := Option.some.inj htask
    exact .single (hcall _ _ (List.mem_singleton.mpr rfl))
  · refine .single fun task htask hsend => ?_
    obtain rfl := Option.some.inj htask
    exact (hsend rfl).elim

/-- With the right number the handshake is sound, and the first byte written is
the first one sent, right behind the ISN. -/
theorem synAck_sound :
    ∃ t pkt, run 7 (connecting 7) synAckThenWrite = .ok t ∧ t.state = .established ∧
      SynAcknowledged 7 synAckThenWrite ∧ t.send.state.seqNrUnack ≠ 7 ∧
      pkt ∈ t.mngr ∧ pkt.skb.text = [0x61, 0x62] ∧ pkt.skb.tcph.seqNo = 8 := by
  obtain ⟨t, pre, pkt, hrun, hstate, hwritten, hmngr, hpre, htext⟩ : ∃ t pre pkt,
      run 7 (connecting 7) synAckThenWrite = .ok t ∧ t.state = .established ∧
      t.written = [0x61, 0x62] ∧ t.mngr = pre ++ pkt :: [] ∧ payload pre = [] ∧
      pkt.skb.text = [0x61, 0x62] := ⟨_, [_, _], _, rfl, rfl, rfl, rfl, rfl, rfl⟩
  have hok : Admitted (step 7) HandshakeOk (connecting 7) synAckThenWrite := by
    exact synAckThenWrite_ok ⟨fun _ _ _ _ => by decide, fun hstate => by cases hstate⟩ fun _ _ => id
  have hharmless : Admitted (step 7) (EventOk HarmlessAck fun _ _ => True) (connecting 7)
      synAckThenWrite := by
    exact synAckThenWrite_ok (fun _ _ hstate => by cases hstate) fun _ _ _ => trivial
  obtain ⟨hacked, hsent⟩ := handshake_sound (opened_connecting 7) hok hrun (.inl (.inl hstate))
  obtain ⟨hunack, hfirst⟩ := hsent hharmless (by rw [hwritten]; decide)
  have hseq := (hfirst pre pkt [] hmngr hpre (by rw [htext]; exact List.cons_ne_nil _ _)).1
  exact ⟨t, pkt, hrun, hstate, hacked, hunack, by rw [hmngr]; simp, htext, hseq⟩

end Tcb

end Mstack
