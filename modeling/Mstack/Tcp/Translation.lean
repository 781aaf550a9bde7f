import Mstack.Tcp.Control
import Mstack.Tcp.Guard

/-!
# Translating sequence numbers

A connection looks the same wherever in the 32-bit circle its two ISNs fall, if
all that is ever done with sequence numbers is to add and to subtract.
`translate r s` moves a block and everything it has sent: the peer's numbers by
`r`, its own by `s`.

Most of `process` commutes with it: building and sending a packet, the text
step behind its guard, the FIN step.  What does not are the comparisons, since
they compare `toNat`s:

* the window test, `tcp_check_segment`;
* the two tests of the ACK step, in SYN-RECEIVED and in the states that
  acknowledge data;
* `std::clamp`, whose bounds must be in order;
* the guard of the text step.

### Outline

One equation for each function, in the order in which `process` calls them.
Where a function compares, the equation asks that the comparison have the same
outcome before and after the move, **and asks nothing else**.  `AckAgrees`
collects what the ACK step asks; `acceptSegment_translate` puts the steps
together.  `Tcp.WrapSafety` shows that these conditions are not only enough but
needed.
-/

namespace Mstack

/-- Move the numbers of a header. -/
def TcpHeader.translate (r s : BitVec 32) (h : TcpHeader) : TcpHeader :=
  { h with seqNo := h.seqNo + r, ackNo := h.ackNo + s }

/-- Move a segment: `r` for the numbers of its sender, `s` for those of its
receiver. -/
def Segment.translate (r s : BitVec 32) (seg : Segment) : Segment :=
  { seg with tcph := seg.tcph.translate r s }

/-- Move a packet that the block itself has sent. -/
def TcpPacket.translate (r s : BitVec 32) (pkt : TcpPacket) : TcpPacket :=
  { pkt with skb := pkt.skb.translate s r }

namespace Tcb

open EventSystem (bind_eq_ok)

/-- Move a block: `r` for RCV.NXT and the acknowledgement numbers sent, `s` for
SND.UNA, SND.NXT, the sequence numbers sent and the bounds passed to
`std::clamp`.  Queues, states, readers and handlers have no numbers and stay. -/
def translate (r s : BitVec 32) (t : Tcb) : Tcb :=
  { t with
    mngr := t.mngr.map (TcpPacket.translate r s)
    send := { t.send with state := { t.send.state with
      seqNrUnack := t.send.state.seqNrUnack + s
      seqNrNext := t.send.state.seqNrNext + s } }
    rcv := { t.rcv with state := { t.rcv.state with next := t.rcv.state.next + r } }
    trace := { t.trace with clamps := t.trace.clamps.map fun p => (p.1 + s, p.2 + s) } }

/-- Accepted text is recorded first; then a reader decides. -/
theorem acceptText_of_nil {t u : Tcb} (text : List Byte) (hreaders : t.onDataReceive = [])
    (hu : u = { t with trace := { t.trace with
      acceptedText := t.trace.acceptedText ++ [text] } }) :
    t.acceptText text = u.appendToQueue text := by
  dsimp only [acceptText]
  split
  · rename_i hcons
    cases hreaders.symm.trans hcons
  · rw [hu]

theorem acceptText_of_cons {t u : Tcb} {reader : Reader} {readers : List Reader} (text : List Byte)
    (hreaders : t.onDataReceive = reader :: readers)
    (hu : u = { t with trace := { t.trace with
      acceptedText := t.trace.acceptedText ++ [text] } }) :
    t.acceptText text = u.deliverToReader reader readers text := by
  dsimp only [acceptText]
  split
  · rename_i hcons
    cases hreaders.symm.trans hcons
    rw [hu]
  · rename_i hnil
    cases hreaders.symm.trans hnil

section Translate

variable (r s : BitVec 32) (t : Tcb) (seg : Segment)

@[simp] theorem translate_state : (t.translate r s).state = t.state := rfl
@[simp] theorem translate_nextState : (t.translate r s).nextState = t.nextState := rfl
@[simp] theorem translate_pq : (t.translate r s).send.pq = t.send.pq := rfl
@[simp] theorem translate_unack :
    (t.translate r s).send.state.seqNrUnack = t.send.state.seqNrUnack + s := rfl
@[simp] theorem translate_next :
    (t.translate r s).send.state.seqNrNext = t.send.state.seqNrNext + s := rfl
@[simp] theorem translate_ACK : (seg.translate r s).tcph.ACK = seg.tcph.ACK := rfl
@[simp] theorem translate_FIN : (seg.translate r s).tcph.FIN = seg.tcph.FIN := rfl
@[simp] theorem translate_ackNo : (seg.translate r s).tcph.ackNo = seg.tcph.ackNo + s := rfl
@[simp] theorem translate_text : (seg.translate r s).text = seg.text := rfl

/-- Moving back. -/
theorem translate_neg : (t.translate r s).translate (-r) (-s) = t := by
  have hpkt : TcpPacket.translate (-r) (-s) ∘ TcpPacket.translate r s = id := by
    funext pkt
    simp [TcpPacket.translate, Segment.translate, TcpHeader.translate]
  simp [translate, hpkt, Function.comp_def]

theorem translate_injective {r s : BitVec 32} {t u : Tcb}
    (h : t.translate r s = u.translate r s) : t = u := by
  have hback := congrArg (translate (-r) (-s)) h
  rwa [translate_neg, translate_neg] at hback

/-! ## Sending

Differences of counters do not change, and nothing is compared. -/

@[simp] theorem appDataUnacknowleged_translate (pq : CircularBuffer Byte) :
    (t.translate r s).appDataUnacknowleged pq = t.appDataUnacknowleged pq := by
  show min pq.size ((t.send.state.seqNrNext + s) - (t.send.state.seqNrUnack + s)).toNat = _
  rw [SerialNumber.add_sub_add]
  rfl

@[simp] theorem appDataToSendLeft_translate (pq : CircularBuffer Byte) :
    (t.translate r s).appDataToSendLeft pq = t.appDataToSendLeft pq := by
  rw [appDataToSendLeft, appDataUnacknowleged_translate]
  rfl

theorem packetOut_translate (pq : CircularBuffer Byte) :
    (t.translate r s).packetOut pq = (t.packetOut pq).translate r s := by
  unfold packetOut
  rw [appDataToSendLeft_translate, appDataUnacknowleged_translate]
  by_cases hzero : 0 = t.appDataToSendLeft pq
  · simp only [outTcp, if_pos hzero]
    rfl
  · simp only [outTcp, if_neg hzero]
    rfl

/-- **Sending a packet.** -/
theorem afterPacket_translate (pq : CircularBuffer Byte) :
    (t.translate r s).afterPacket pq = (t.afterPacket pq).translate r s := by
  unfold afterPacket
  rw [packetOut_translate, appDataToSendLeft_translate]
  simp only [translate, List.map_append, List.map_cons, List.map_nil]
  rw [add_right_comm]
  rfl

theorem makeAndSendPkt_translate :
    (t.translate r s).makeAndSendPkt = t.makeAndSendPkt.map (translate r s) := by
  rw [makeAndSendPkt_eq, makeAndSendPkt_eq, translate_pq]
  cases t.send.pq with
  | none => rfl
  | some pq => exact congrArg Except.ok (afterPacket_translate r s t pq)

/-! ## The FIN step

It adds one to RCV.NXT and may send. -/

theorem advanceRcvNext_translate (n : ℕ) :
    (t.translate r s).advanceRcvNext n = (t.advanceRcvNext n).translate r s := by
  simp only [advanceRcvNext, translate]
  rw [add_right_comm]

theorem establishedCase_translate :
    (t.translate r s).establishedCase = t.establishedCase.map (translate r s) := by
  have hsend : (((t.translate r s).advanceRcvNext 1).setNextState .closeWait).makeAndSendPkt =
      ((t.advanceRcvNext 1).setNextState .closeWait).makeAndSendPkt.map (translate r s) := by
    rw [advanceRcvNext_translate]
    exact makeAndSendPkt_translate r s ((t.advanceRcvNext 1).setNextState .closeWait)
  unfold establishedCase
  rw [hsend]
  cases ((t.advanceRcvNext 1).setNextState .closeWait).makeAndSendPkt with
  | error f => rfl
  | ok u =>
      show Except.ok (u.translate r s).finWait1Case = Except.ok (u.finWait1Case.translate r s)
      rw [finWait1Case_eq, finWait1Case_eq]
      rfl

/-- **The FIN step** compares nothing. -/
theorem finStep_translate :
    (t.translate r s).finStep (seg.translate r s) = (t.finStep seg).map (translate r s) := by
  unfold finStep
  rw [translate_FIN, translate_state]
  by_cases hFIN : seg.tcph.FIN = true
  · rw [if_pos hFIN, if_pos hFIN]
    cases t.state <;> dsimp only
    case synReceived => exact establishedCase_translate r s t
    case established => exact establishedCase_translate r s t
    case finWait1 =>
      rw [finWait1Case_eq, finWait1Case_eq]
      rfl
    all_goals rfl
  · rw [if_neg hFIN, if_neg hFIN]
    rfl

/-! ## The text step

Behind the guard nothing is compared. -/

theorem appendToQueue_translate (text : List Byte) :
    (t.translate r s).appendToQueue text = (t.appendToQueue text).map (translate r s) := by
  unfold appendToQueue
  show (if t.rcv.pq.size + text.length > t.rcv.pq.capacity then _ else _) = _
  by_cases hroom : t.rcv.pq.size + text.length > t.rcv.pq.capacity
  · rw [if_pos hroom, if_pos hroom]
    rfl
  · rw [if_neg hroom, if_neg hroom]
    rfl

theorem deliverToReader_translate (reader : Reader) (readers : List Reader) (text : List Byte) :
    (t.translate r s).deliverToReader reader readers text =
      (t.deliverToReader reader readers text).map (translate r s) := by
  unfold deliverToReader
  show (if ¬ t.rcv.pq.empty then _ else _) = _
  by_cases hempty : t.rcv.pq.empty = true
  · rw [if_neg (not_not.mpr hempty), if_neg (not_not.mpr hempty)]
    simp only [advanceRcvNext, copyToReader, post, translate, Except.map]
    rw [add_right_comm]
  · rw [if_pos hempty, if_pos hempty]
    rfl

theorem acceptText_translate (text : List Byte) :
    (t.translate r s).acceptText text = (t.acceptText text).map (translate r s) := by
  obtain ⟨u, hu⟩ : ∃ u : Tcb, u = { t with trace := { t.trace with
    acceptedText := t.trace.acceptedText ++ [text] } } := ⟨_, rfl⟩
  have hleft : u.translate r s = { t.translate r s with trace := { (t.translate r s).trace with
      acceptedText := (t.translate r s).trace.acceptedText ++ [text] } } := by rw [hu]; rfl
  cases hreaders : t.onDataReceive with
  | nil =>
      rw [acceptText_of_nil (t := t.translate r s) text hreaders hleft,
        acceptText_of_nil text hreaders hu]
      exact appendToQueue_translate r s u text
  | cons reader readers =>
      rw [acceptText_of_cons (t := t.translate r s) text hreaders hleft,
        acceptText_of_cons text hreaders hu]
      exact deliverToReader_translate r s u reader readers text

end Translate

section Decisions

variable {r s : BitVec 32} {t : Tcb} {seg : Segment}

/-- **The text step**, where the guard decides the same. -/
theorem textStep_translate
    (haccepts : (t.translate r s).acceptsText (seg.translate r s) = t.acceptsText seg) :
    (t.translate r s).textStep (seg.translate r s) = (t.textStep seg).map (translate r s) := by
  rw [textStep_eq, textStep_eq, haccepts, translate_text]
  split
  · exact acceptText_translate r s t seg.text
  · rfl

/-! ## The ACK step

Two comparisons and a clamp. -/

/-- SND.UNA and SND.NXT, in the order `std::clamp` asks for. -/
def SendOrdered (t : Tcb) : Prop := t.send.state.seqNrUnack ≤ t.send.state.seqNrNext

instance (t : Tcb) : Decidable t.SendOrdered := inferInstanceAs (Decidable (_ ≤ _))

/-- **The ACK step decides the same for `t` and `seg` as for `u` and `v`**, as
far as it decides anything: a comparison in a state in which it is not made is
not asked about. -/
structure AckAgrees (t : Tcb) (seg : Segment) (u : Tcb) (v : Segment) : Prop where
  range : seg.tcph.ACK = true → t.state = .synReceived → (t.AckInRange seg ↔ u.AckInRange v)
  ordered : seg.tcph.ACK = true → t.state.acksData = true → t.SendOrdered ∧ u.SendOrdered
  unsent : seg.tcph.ACK = true → t.state.acksData = true → (t.AckUnsent seg ↔ u.AckUnsent v)

theorem clampUnack_translate {ackNo : BitVec 32}
    (hclamp : SerialNumber.clamp (ackNo + s) (t.send.state.seqNrUnack + s)
        (t.send.state.seqNrNext + s) =
      SerialNumber.clamp ackNo t.send.state.seqNrUnack t.send.state.seqNrNext + s) :
    (t.translate r s).clampUnack (ackNo + s) = (t.clampUnack ackNo).translate r s := by
  simp only [clampUnack, translate, hclamp, List.map_append, List.map_cons, List.map_nil]

theorem ackSyn_translate (h : t.AckInRange seg)
    (h' : (t.translate r s).AckInRange (seg.translate r s)) :
    (t.translate r s).ackSyn (seg.tcph.ackNo + s) = (t.ackSyn seg.tcph.ackNo).translate r s := by
  unfold ackSyn
  rw [clampUnack_translate]
  · rfl
  · rw [SerialNumber.clamp_of_le h.1 h.2]
    exact SerialNumber.clamp_of_le h'.1 h'.2

theorem ackData_translate {ackNo : BitVec 32} (pq : CircularBuffer Byte)
    (h : t.SendOrdered) (h' : (t.translate r s).SendOrdered)
    (hunsent : t.send.state.seqNrNext < ackNo ↔ t.send.state.seqNrNext + s < ackNo + s) :
    (t.translate r s).ackData pq (ackNo + s) = (t.ackData pq ackNo).translate r s := by
  unfold ackData
  rw [translate_unack, SerialNumber.add_sub_add]
  exact clampUnack_translate
    (t := { t with send := { t.send with pq := some (pq.eraseBegin _) } })
    (SerialNumber.clamp_add h h' hunsent)

theorem ackNextState_translate : (t.translate r s).ackNextState = t.ackNextState.translate r s := by
  unfold ackNextState
  rw [translate_state]
  by_cases hfin : t.state = .finWait1
  · simp [hfin, setNextState, translate]
  · by_cases hclosing : t.state = .closing
    · simp [hclosing, setNextState, translate]
    · simp [hfin, hclosing]

end Decisions

end Tcb

/-- Move the block at the end of a step. -/
def Flow.translate (r s : BitVec 32) : Flow → Flow
  | .ret t => .ret (t.translate r s)
  | .next t => .next (t.translate r s)

namespace Tcb

section Decisions

variable {r s : BitVec 32} {t : Tcb} {seg : Segment}

theorem ackEstablished_translate (h : t.SendOrdered) (h' : (t.translate r s).SendOrdered)
    (hunsent : seg.tcph.ackNo > t.send.state.seqNrNext ↔
      seg.tcph.ackNo + s > t.send.state.seqNrNext + s) :
    (t.translate r s).ackEstablished (seg.tcph.ackNo + s) =
      (t.ackEstablished seg.tcph.ackNo).map (Flow.translate r s) := by
  unfold ackEstablished sendPq
  rw [translate_pq]
  cases t.send.pq with
  | none => rfl
  | some pq =>
      simp only [EventSystem.ok_bind]
      rw [ackData_translate pq h h' hunsent, translate_next, ackData_next]
      by_cases hgt : seg.tcph.ackNo > t.send.state.seqNrNext
      · rw [if_pos (hunsent.mp hgt), if_pos hgt, makeAndSendPkt_translate]
        cases (t.ackData pq seg.tcph.ackNo).makeAndSendPkt <;> rfl
      · rw [if_neg fun hgt' => hgt (hunsent.mpr hgt'), if_neg hgt, ackNextState_translate]
        rfl

theorem ackStep_of_synReceived (hACK : seg.tcph.ACK = true) (hs : t.state = .synReceived) :
    t.ackStep seg = if t.AckInRange seg then .ok (.next (t.ackSyn seg.tcph.ackNo))
      else .ok (.ret t) := by
  simp only [ackStep, hACK, hs, not_true_eq_false, if_false]
  rfl

/-- **The ACK step**, where it decides the same. -/
theorem ackStep_translate (h : AckAgrees t seg (t.translate r s) (seg.translate r s)) :
    (t.translate r s).ackStep (seg.translate r s) =
      (t.ackStep seg).map (Flow.translate r s) := by
  by_cases hACK : seg.tcph.ACK = true
  · by_cases hdata : t.state.acksData = true
    · have hleft : (t.translate r s).ackStep (seg.translate r s) =
          (t.translate r s).ackEstablished (seg.tcph.ackNo + s) := ackStep_of_acksData hACK hdata
      rw [hleft, ackStep_of_acksData hACK hdata]
      obtain ⟨hordered, hordered'⟩ := h.ordered hACK hdata
      exact ackEstablished_translate hordered hordered' (h.unsent hACK hdata)
    · cases hs : t.state <;> rw [hs] at hdata <;> simp only [TcpState.acksData,
        not_true_eq_false] at hdata
      case synReceived =>
        have hleft : (t.translate r s).ackStep (seg.translate r s) =
            if (t.translate r s).AckInRange (seg.translate r s)
            then .ok (.next ((t.translate r s).ackSyn (seg.translate r s).tcph.ackNo))
            else .ok (.ret (t.translate r s)) := ackStep_of_synReceived hACK hs
        rw [hleft, ackStep_of_synReceived hACK hs]
        by_cases hin : t.AckInRange seg
        · have hin' := (h.range hACK hs).mp hin
          rw [if_pos hin', if_pos hin, translate_ackNo, ackSyn_translate hin hin']
          rfl
        · rw [if_neg fun hin' => hin ((h.range hACK hs).mpr hin'), if_neg hin]
          rfl
      case timeWait =>
        simp only [ackStep, translate_ACK, translate_state, hACK, hs, not_true_eq_false, if_false]
        rw [makeAndSendPkt_translate]
        cases t.makeAndSendPkt <;> rfl
      all_goals
        simp only [ackStep, translate_ACK, translate_state, hACK, hs, not_true_eq_false, if_false]
        rfl
  · unfold ackStep
    rw [translate_ACK, if_pos (by simpa using hACK), if_pos (by simpa using hACK)]
    rfl

/-! ## Steps five to eight

The steps behind the window test, put together. -/

/-- **A segment that reaches the ACK step on both sides**, where every
comparison it meets has the same outcome. -/
theorem acceptSegment_translate
    (hack : AckAgrees t seg (t.translate r s) (seg.translate r s))
    (htext : ∀ u, t.ackStep seg = .ok (.next u) →
      (u.translate r s).acceptsText (seg.translate r s) = u.acceptsText seg) :
    (t.translate r s).acceptSegment (seg.translate r s) =
      (t.acceptSegment seg).map (translate r s) := by
  unfold acceptSegment
  rw [ackStep_translate hack]
  cases hflow : t.ackStep seg with
  | error f => rfl
  | ok flow =>
      cases flow with
      | ret u => rfl
      | next u =>
          show ((u.translate r s).textStep (seg.translate r s) >>= fun v => v.finStep _) =
            Except.map _ (u.textStep seg >>= fun v => v.finStep seg)
          rw [textStep_translate (htext u hflow)]
          cases u.textStep seg with
          | error f => rfl
          | ok v => exact finStep_translate r s v seg

end Decisions

end Tcb

end Mstack
