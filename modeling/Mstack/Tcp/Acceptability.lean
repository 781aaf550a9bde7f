import Mstack.Tcp.Outcome

/-!
# Acknowledgements and acceptability, number by number

Two checks of `process` that RFC 793 states as inequalities between sequence
numbers: what an acknowledgement takes out of the send queue, and which
segments are acceptable at all.  Both are compared here with their RFC text for
every number there is.

* The ACK step computes what to erase as a 32-bit difference and what SND.UNA
  becomes as a clamp.  The two agree between SND.UNA and SND.NXT.  Outside, the
  difference is of no use: below SND.UNA it wraps, and an old duplicate erases
  the whole queue.
* `tcp_check_segment` writes the upper bound of one comparison without the
  comparison, `rcv_.state.next + rcv_.state.window` as a truth value, and so
  accepts whatever carries data and lies beyond the window.

### Main results

* `ackStep_acknowledges_iff` — an acknowledgement does what it should exactly
  between SND.UNA and SND.NXT, or if the queue is empty.
* `acceptability_iff_not_beyond` — the acceptability test is that of the RFC,
  and data beyond the window changes nothing, exactly for segments that are not
  data beyond an open window.

### Implementation notes

`Acceptable` is the table in the comment of `tcp_check_segment`, over natural
numbers; where nothing wraps, unsigned comparison is comparison of the
numbers.  Where nothing wraps and the window is open the sum of RCV.NXT and
RCV.WND is not zero, so as a truth value it is true.
-/

namespace Mstack

namespace Tcb

/-! ## What an acknowledgement takes out of the send queue

The rule of the RFC, and the difference that stands for it. -/

/-- What an acknowledgement of `ackNo` is to do to a block with send queue
`pq`: a number between SND.UNA and SND.NXT takes the bytes in front of it out
of the queue and becomes SND.UNA, any other one does nothing. -/
def Acknowledges (t : Tcb) (pq : CircularBuffer Byte) (ackNo : BitVec 32) (t' : Tcb) : Prop :=
  if t.send.state.seqNrUnack ≤ ackNo ∧ ackNo ≤ t.send.state.seqNrNext then
    t'.send.pq = some (pq.eraseBegin (ackNo - t.send.state.seqNrUnack).toNat) ∧
      t'.send.state.seqNrUnack = ackNo
  else t'.send.pq = some pq ∧ t'.send.state.seqNrUnack = t.send.state.seqNrUnack

/-- However the ACK step ends, queue and SND.UNA are those of `ackData`. -/
theorem ackStep_send {t : Tcb} {pq : CircularBuffer Byte} {seg : Segment}
    (hstate : t.state.acksData = true) (hpq : t.send.pq = some pq)
    (hACK : seg.tcph.ACK = true) :
    ∃ flow, t.ackStep seg = .ok flow ∧
      flow.block.send.pq = (t.ackData pq seg.tcph.ackNo).send.pq ∧
      flow.block.send.state.seqNrUnack
        = (t.ackData pq seg.tcph.ackNo).send.state.seqNrUnack := by
  rw [ackStep_of_acksData hACK hstate, ackEstablished, sendPq_ok.mpr hpq,
    EventSystem.ok_bind]
  dsimp only
  split
  · rw [makeAndSendPkt_ok.mpr ⟨_, rfl, rfl⟩]
    exact ⟨_, rfl, rfl, rfl⟩
  · obtain ⟨n, hn⟩ := (t.ackData pq seg.tcph.ackNo).ackNextState_eq
    rw [hn]
    exact ⟨_, rfl, rfl, rfl⟩

/-- **The ACK step loses nothing exactly if there is nothing to lose.**
Between SND.UNA and SND.NXT an acknowledgement takes out of the send queue what
it acknowledges.  A number below SND.UNA or above SND.NXT is ignored if and
only if the queue is empty.

The hypotheses are what a connection with sane acknowledgements keeps while its
counters do not wrap: SND.UNA =< SND.NXT, and what is in flight is part of the
queue. -/
theorem ackStep_acknowledges_iff {t : Tcb} {pq : CircularBuffer Byte} {seg : Segment}
    (hstate : t.state.acksData = true) (hpq : t.send.pq = some pq)
    (hle : t.send.state.seqNrUnack ≤ t.send.state.seqNrNext)
    (hsize : (t.send.state.seqNrNext - t.send.state.seqNrUnack).toNat ≤ pq.size)
    (hACK : seg.tcph.ACK = true) :
    ∃ flow, t.ackStep seg = .ok flow ∧
      (t.Acknowledges pq seg.tcph.ackNo flow.block ↔
        (t.send.state.seqNrUnack ≤ seg.tcph.ackNo ∧ seg.tcph.ackNo ≤ t.send.state.seqNrNext) ∨
          pq.size = 0) := by
  obtain ⟨flow, hflow, hqueue, hunack⟩ := ackStep_send hstate hpq hACK
  refine ⟨flow, hflow, ?_⟩
  set una := t.send.state.seqNrUnack with huna
  set nxt := t.send.state.seqNrNext with hnxt
  set ackNo := seg.tcph.ackNo
  rw [ackData_pq, ← huna] at hqueue
  rw [ackData_unack, ← huna, ← hnxt] at hunack
  rw [Acknowledges, ← huna, ← hnxt, hqueue, hunack]
  have hdist := hsize
  rw [BitVec.toNat_sub_of_le hle] at hdist
  split
  · rename_i hin
    -- Everything up to `ackNo` is in the queue.
    have hbound : (ackNo - una).toNat ≤ pq.size := by
      have hhi := BitVec.le_def.mp hin.2
      rw [BitVec.toNat_sub_of_le hin.1]
      omega
    rw [min_eq_right hbound, SerialNumber.clamp_of_le hin.1 hin.2]
    exact iff_of_true ⟨rfl, rfl⟩ (.inl hin)
  · rename_i hout
    -- Outside the range the distance is not zero, so bytes are erased if there are any.
    have hne : (ackNo - una).toNat ≠ 0 := by
      intro hzero
      have hsame : ackNo = una := sub_eq_zero.mp (BitVec.toNat_inj.mp hzero)
      exact hout ⟨BitVec.le_of_eq hsame.symm, hsame ▸ hle⟩
    rw [Option.some.injEq, CircularBuffer.eraseBegin_min_eq_self_iff]
    constructor
    · rintro ⟨hzero | hempty, -⟩
      · exact absurd hzero hne
      · exact .inr hempty
    · rintro (hin | hempty)
      · exact absurd hin hout
      · -- An empty queue has nothing in flight.
        have hmeet : nxt = una := by
          have hlo := BitVec.le_def.mp hle
          apply BitVec.eq_of_toNat_eq
          omega
        rw [hmeet, SerialNumber.clamp_self]
        exact ⟨.inr hempty, rfl⟩

/-- An established block: bytes 10 and 11 are in flight, byte 12 is not sent
yet. -/
def twoInFlight : Tcb :=
  { Tcb.create ⟨1, 1⟩ ⟨2, 2⟩ .established .established default default with
    send :=
      { state := { seqNrUnack := 10, seqNrNext := 12, window := 8, mss := 4 }
        pq := some ((CircularBuffer.ofCapacity 8).insertEnd [1, 2, 3]) } }

/-- An empty segment that acknowledges `ackNo`. -/
def bareAck (ackNo : BitVec 32) : Segment where
  tcph := { TcpHeader.bare with ACK := true, ackNo }
  opts := []
  text := []

theorem twoInFlight_acknowledged :
    ∃ pq flow, twoInFlight.send.pq = some pq ∧ twoInFlight.ackStep (bareAck 11) = .ok flow ∧
      twoInFlight.Acknowledges pq 11 flow.block := by
  have hstate : twoInFlight.state.acksData = true := rfl
  have hACK : (bareAck 11).tcph.ACK = true := rfl
  obtain ⟨flow, hflow, hiff⟩ :=
    ackStep_acknowledges_iff hstate rfl (by decide) (by decide) hACK
  exact ⟨_, flow, rfl, hflow, hiff.mpr (.inl (by decide))⟩

/-- An old duplicate empties the queue: three bytes that were never
acknowledged are gone. -/
theorem old_duplicate_drops_queue :
    ∃ pq flow, twoInFlight.send.pq = some pq ∧ twoInFlight.ackStep (bareAck 9) = .ok flow ∧
      flow.block.send.pq.map CircularBuffer.data = some [] ∧
      ¬ twoInFlight.Acknowledges pq 9 flow.block := by
  refine ⟨_, _, rfl, rfl, by decide, ?_⟩
  rintro ⟨hpq, -⟩
  revert hpq
  decide

/-! ## Which segments are acceptable

The table of the RFC, and the comparison that is missing. -/

/-- The table in the comment of `tcp_check_segment`, for numbers that do not
wrap. -/
def Acceptable (rcvNxt rcvWnd segSeq segLen : ℕ) : Prop :=
  if segLen = 0 then
    if rcvWnd = 0 then segSeq = rcvNxt else rcvNxt ≤ segSeq ∧ segSeq < rcvNxt + rcvWnd
  else if rcvWnd = 0 then False
  else (rcvNxt ≤ segSeq ∧ segSeq < rcvNxt + rcvWnd) ∨
    (rcvNxt ≤ segSeq + segLen - 1 ∧ segSeq + segLen - 1 < rcvNxt + rcvWnd)

/-- The segment carries data, and all of it lies beyond the window. -/
def BeyondWindow (rcvNxt rcvWnd segSeq segLen : ℕ) : Prop :=
  0 < segLen ∧ rcvNxt + rcvWnd ≤ segSeq

/-- **`tcp_check_segment`, number by number.**  Where nothing wraps, it is the
table, except that it accepts what lies beyond an open window. -/
theorem tcpCheckSegment_eq_true_iff {t : Tcb} {tcph : TcpHeader} {seglen : BitVec 16}
    (hstate : t.state.synchronized = true)
    (hwnd : t.rcv.state.next.toNat + t.rcv.state.window.toNat < 2 ^ 32)
    (hseq : tcph.seqNo.toNat + seglen.toNat < 2 ^ 32) :
    t.tcpCheckSegment tcph seglen = true ↔
      Acceptable t.rcv.state.next.toNat t.rcv.state.window.toNat tcph.seqNo.toNat seglen.toNat ∨
        (0 < t.rcv.state.window.toNat ∧ BeyondWindow t.rcv.state.next.toNat
          t.rcv.state.window.toNat tcph.seqNo.toNat seglen.toNat) := by
  have hedge : (t.rcv.state.next + t.rcv.state.window.setWidth 32).toNat
      = t.rcv.state.next.toNat + t.rcv.state.window.toNat := by
    rw [BitVec.toNat_add, BitVec.toNat_setWidth_of_le (by decide), Nat.mod_eq_of_lt hwnd]
  have hlen : seglen = 0 ↔ seglen.toNat = 0 := BitVec.toNat_inj.symm
  have hwindow : t.rcv.state.window = 0 ↔ t.rcv.state.window.toNat = 0 := BitVec.toNat_inj.symm
  have hzero : (t.rcv.state.next + t.rcv.state.window.setWidth 32) = 0 ↔
      t.rcv.state.next.toNat + t.rcv.state.window.toNat = 0 := by
    rw [← hedge]
    exact BitVec.toNat_inj.symm
  -- The rows of the table: text or none, window open or closed.
  unfold tcpCheckSegment Acceptable BeyondWindow
  simp only [hstate, if_true, gt_iff_lt, BitVec.lt_def, BitVec.le_def, hedge, hlen, hwindow, hzero,
    ne_eq]
  by_cases hempty : seglen.toNat = 0
  · by_cases hclosed : t.rcv.state.window.toNat = 0
    · simp [hempty, hclosed, ← BitVec.toNat_inj]
    · have hopen : 0 < t.rcv.state.window.toNat := Nat.pos_of_ne_zero hclosed
      simp [hempty, hclosed, hopen]
  · have hpos : 0 < seglen.toNat := Nat.pos_of_ne_zero hempty
    by_cases hclosed : t.rcv.state.window.toNat = 0
    · simp [hempty, hclosed, hpos]
    · have hopen : 0 < t.rcv.state.window.toNat := Nat.pos_of_ne_zero hclosed
      have hlast : (tcph.seqNo + seglen.setWidth 32 - 1).toNat
          = tcph.seqNo.toNat + seglen.toNat - 1 := by
        have hsum : (tcph.seqNo + seglen.setWidth 32).toNat
            = tcph.seqNo.toNat + seglen.toNat := by
          rw [BitVec.toNat_add, BitVec.toNat_setWidth_of_le (by decide), Nat.mod_eq_of_lt hseq]
        have hone : (1 : BitVec 32) ≤ tcph.seqNo + seglen.setWidth 32 := by
          rw [BitVec.le_def, hsum]
          change 1 ≤ _
          omega
        rw [BitVec.toNat_sub_of_le hone, hsum]
        rfl
      simp only [hempty, hclosed, hpos, hopen, hlast, false_and, and_false, if_false,
        decide_eq_true_eq, true_and]
      omega

/-- A segment that fails the test changes nothing. -/
theorem process_of_check_false {t : Tcb} {seg : Segment} (isn : BitVec 32)
    (hstate : t.state.synchronized = true)
    (hcheck : t.tcpCheckSegment seg.tcph (BitVec.ofNat 16 seg.text.length) = false) :
    t.process isn seg = .ok t := by
  rw [process_of_synchronized hstate, reachesAckStep, hcheck]
  rfl

/-- **The acceptability test is that of RFC 793 except beyond an open
window.**  For every number that does not wrap, `tcp_check_segment` answers
with its table, and data beyond the window changes nothing, if and only if the
segment is not data beyond an open window.

With a closed window, and for empty segments, the test is the table. -/
theorem acceptability_iff_not_beyond {t : Tcb} {tcph : TcpHeader} {seglen : BitVec 16}
    (hstate : t.state.synchronized = true)
    (hwnd : t.rcv.state.next.toNat + t.rcv.state.window.toNat < 2 ^ 32)
    (hseq : tcph.seqNo.toNat + seglen.toNat < 2 ^ 32) :
    ((t.tcpCheckSegment tcph seglen = true ↔ Acceptable t.rcv.state.next.toNat
        t.rcv.state.window.toNat tcph.seqNo.toNat seglen.toNat) ∧
      (BeyondWindow t.rcv.state.next.toNat t.rcv.state.window.toNat tcph.seqNo.toNat
          seglen.toNat → ∀ isn seg, seg.tcph = tcph →
        BitVec.ofNat 16 seg.text.length = seglen → t.process isn seg = .ok t)) ↔
    ¬ (0 < t.rcv.state.window.toNat ∧ BeyondWindow t.rcv.state.next.toNat
      t.rcv.state.window.toNat tcph.seqNo.toNat seglen.toNat) := by
  have hcheck := tcpCheckSegment_eq_true_iff hstate hwnd hseq
  have hdisjoint : 0 < t.rcv.state.window.toNat → BeyondWindow t.rcv.state.next.toNat
      t.rcv.state.window.toNat tcph.seqNo.toNat seglen.toNat →
      ¬ Acceptable t.rcv.state.next.toNat t.rcv.state.window.toNat tcph.seqNo.toNat
        seglen.toNat := by
    rintro hopen ⟨hpos, hbeyond⟩
    rw [Acceptable, if_neg hpos.ne', if_neg hopen.ne']
    omega
  constructor
  · rintro ⟨htable, -⟩ ⟨hopen, hbeyond⟩
    exact hdisjoint hopen hbeyond (htable.mp (hcheck.mpr (.inr ⟨hopen, hbeyond⟩)))
  · intro hnot
    refine ⟨hcheck.trans (or_iff_left hnot), ?_⟩
    rintro hbeyond isn seg rfl rfl
    -- The window is closed, and a closed window accepts no data.
    have hclosed : t.rcv.state.window.toNat = 0 :=
      Nat.eq_zero_of_not_pos fun hopen => hnot ⟨hopen, hbeyond⟩
    apply process_of_check_false isn hstate
    rw [← Bool.not_eq_true, hcheck, or_iff_left hnot, Acceptable, if_neg hbeyond.1.ne',
      if_pos hclosed]
    exact id

/-- The header of a segment with sequence number `seqNo` that acknowledges byte
9. -/
def dataAt (seqNo : BitVec 32) : TcpHeader := { TcpHeader.bare with ACK := true, seqNo, ackNo := 10 }

/-- The block of `twoInFlight`, waiting for byte 100 with a window of 8. -/
def narrowWindow : Tcb :=
  { twoInFlight with rcv := { twoInFlight.rcv with
    state := { next := 100, window := 8, mss := 0 } } }

theorem narrowWindow_accepts :
    narrowWindow.tcpCheckSegment (dataAt 107) 4 = true ↔ Acceptable 100 8 107 4 := by
  have hstate : narrowWindow.state.synchronized = true := rfl
  have hwnd : narrowWindow.rcv.state.next.toNat + narrowWindow.rcv.state.window.toNat < 2 ^ 32 := by
    decide
  have hseq : (dataAt 107).seqNo.toNat + (4 : BitVec 16).toNat < 2 ^ 32 := by decide
  have hnear : ¬ (0 < narrowWindow.rcv.state.window.toNat ∧ BeyondWindow
      narrowWindow.rcv.state.next.toNat narrowWindow.rcv.state.window.toNat
      (dataAt 107).seqNo.toNat (4 : BitVec 16).toNat) := by
    rintro ⟨-, -, hbeyond⟩
    revert hbeyond
    decide
  exact ((acceptability_iff_not_beyond hstate hwnd hseq).mpr hnear).1

/-- Four bytes 900 bytes beyond the window are accepted, and end up in the
receive queue. -/
theorem beyond_window_accepted :
    narrowWindow.tcpCheckSegment (dataAt 1000) 4 = true ∧ ¬ Acceptable 100 8 1000 4 ∧
      BeyondWindow 100 8 1000 4 ∧
      ∃ t', narrowWindow.process 0 ⟨dataAt 1000, [], [1, 2, 3, 4]⟩ = .ok t' ∧
        t'.rcv.pq.data = [1, 2, 3, 4] := by
  refine ⟨by decide, ?_, by constructor <;> decide, _, rfl, by decide⟩
  rw [Acceptable]
  decide

end Tcb

end Mstack
