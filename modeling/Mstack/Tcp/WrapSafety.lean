import Mstack.Tcp.Translation

/-!
# Wrap safety

When `process` commutes with translating the sequence numbers, exactly.

It does so for a segment if each comparison it makes on the way comes out the
same before and after the move.  That is almost the whole condition.  The
exception: a segment that only one of the two window tests lets through may
still leave the block as it was.  Such a segment is `Idle`, and it commutes
although the window tests disagree.

### Main results

* `translation_invariant_iff` — the exact condition, `Translatable`, on the
  block, the segment and the two offsets.
* `fin_dropped_at_wrap` — the comparisons are unsigned, so the condition fails
  next to `2 ^ 32`: a FIN is dropped because the receive window wraps.

### Outline

* *Enough.*  If both window tests let the segment through, `Tcp.Translation`
  applies; if only one does, `Idle.acceptSegment` shows that this side changes
  nothing.
* *Needed.*  From equal results one reads back what the comparisons said.  This
  works because each outcome **leaves something visible**: a number in the
  range of SYN-RECEIVED changes the state, an unsent number is answered with a
  packet and leaves the pending state entered, text that is taken removes a
  reader or makes the queue grow.  `Similar` lists what is compared, and
  `Follows.range`, `Follows.unsent` and `Follows.guard` are the three
  arguments.

### Implementation notes

`std::clamp` is undefined when its bounds are not in order, so
`TranslationInvariant` also asks that they are, before and after.  The record
of the bounds is part of the block and is left out of the comparison of results
(`unclamped`), as the number of recorded calls may differ where one side drops
the segment.
-/

namespace Mstack

namespace Tcb

/-- The block without the record of its `std::clamp` calls. -/
def unclamped (t : Tcb) : Tcb := { t with trace := { t.trace with clamps := [] } }

/-- Every call of `std::clamp` that the segment leads to has its bounds in
order.  All of them are made in the ACK step. -/
def ClampsOrdered (t : Tcb) (seg : Segment) : Prop :=
  t.reachesAckStep seg = true → ∀ flow, t.ackStep seg = .ok flow →
    ∀ p ∈ flow.block.trace.clamps.drop t.trace.clamps.length, p.1 ≤ p.2

/-- **Translation invariance.**  Moving the block and the segment first, or
processing the segment first and moving the result, is the same; and
`std::clamp` is called as it has to be.  An abort on one side is an abort on
the other. -/
structure TranslationInvariant (isn r s : BitVec 32) (t : Tcb) (seg : Segment) : Prop where
  commutes : ((t.translate r s).process isn (seg.translate r s)).map unclamped =
    (t.process isn seg).map fun u => (u.translate r s).unclamped
  ordered : t.ClampsOrdered seg
  ordered' : (t.translate r s).ClampsOrdered (seg.translate r s)

/-! ## The condition

A predicate on two blocks and two segments; the second pair will be the
translated one. -/

/-- **Two blocks decide the same**, each for its segment, as far as they decide
anything.  To the comparisons of the ACK step this adds the guard of the text
step, for segments that get there. -/
structure Agrees (t : Tcb) (seg : Segment) (u : Tcb) (v : Segment) : Prop
    extends AckAgrees t seg u v where
  text : t.ReachesGuard seg → t.textGuard seg.tcph = u.textGuard v.tcph

/-- What the ACK step would leave in `next_state_`. -/
def nextStateAfterAck (t : Tcb) : TcpState :=
  match t.state with
  | .finWait1 => .finWait2
  | .closing => .timeWait
  | .lastAck => .closed
  | _ => t.nextState

/-- What the segment would leave in `next_state_`, if nothing is sent. -/
def nextStateAfter (t : Tcb) (seg : Segment) : TcpState :=
  if seg.tcph.FIN = true ∧ (t.state = .finWait1 ∨ t.state = .finWait2) then .timeWait
  else if seg.tcph.ACK then t.nextStateAfterAck
  else t.nextState

/-- **The segment has nothing to do**: it acknowledges nothing new, no text of
it is taken, it closes nothing, it is not answered, and `next_state_` has its
value already.  The fields are conditions on the block and the segment, one for
each step of `process`. -/
structure Idle (t : Tcb) (seg : Segment) : Prop where
  range : seg.tcph.ACK = true → t.state = .synReceived → ¬ t.AckInRange seg
  data : seg.tcph.ACK = true → t.state.acksData = true →
    t.SendOrdered ∧ seg.tcph.ackNo ≤ t.send.state.seqNrUnack ∧
      (seg.tcph.ackNo = t.send.state.seqNrUnack ∨ ∀ pq, t.send.pq = some pq → pq.size = 0)
  timeWait : seg.tcph.ACK = true → t.state ≠ .timeWait
  text : t.acceptsText seg = false
  fin : seg.tcph.FIN = true →
    t.state ≠ .established ∧ (t.state = .synReceived → seg.tcph.ACK = true)
  next : t.nextStateAfter seg = t.nextState

/-- **The condition.**  If both window tests let the segment through, the rest
is decided the same way; if only one does, the segment has nothing to do
there. -/
structure Translatable (t : Tcb) (seg : Segment) (u : Tcb) (v : Segment) : Prop where
  both : t.reachesAckStep seg = true → u.reachesAckStep v = true → Agrees t seg u v
  left : t.reachesAckStep seg = true → u.reachesAckStep v = false → Idle t seg
  right : t.reachesAckStep seg = false → u.reachesAckStep v = true → Idle u v

/-! ## The calls of `std::clamp`

In the states that acknowledge data the bounds are SND.UNA and SND.NXT as they
are. -/

section Clamps

variable {t : Tcb} {seg : Segment}

/-- In the states that acknowledge data the bounds are SND.UNA and SND.NXT as
they are. -/
theorem clampsOrdered_iff (hreach : t.reachesAckStep seg = true)
    (hpq : ∃ pq, t.send.pq = some pq) :
    t.ClampsOrdered seg ↔
      (seg.tcph.ACK = true → t.state.acksData = true → t.SendOrdered) := by
  obtain ⟨pq, hpq⟩ := hpq
  constructor
  · intro h hACK hdata
    obtain ⟨flow, hflow⟩ := ackStep_total seg hpq
    have hord := h hreach flow hflow (t.send.state.seqNrUnack, t.send.state.seqNrNext)
    -- Only where data is acknowledged are the bounds those of the block before the step.
    cases ackStep_cases hflow with
    | absent hno => rw [hACK] at hno; cases hno
    | accepted _ hs => rw [hs] at hdata; cases hdata
    | refused _ hs => rw [hs] at hdata; cases hdata
    | lastAck _ hs => rw [hs] at hdata; cases hdata
    | timeWait _ hs => rw [hs] at hdata; cases hdata
    | unsynchronized _ hs => rw [reachesAckStep_synchronized hreach] at hs; cases hs
    | data _ _ pq' hpq' hhi =>
        obtain ⟨n, hn⟩ := (t.ackData pq' seg.tcph.ackNo).ackNextState_eq
        rw [hn] at hord
        exact hord (by simp [Flow.block, ackData, clampUnack, setNextState])
    | unsent _ _ pq' pq'' hpq' hhi hpq'' =>
        exact hord (by simp [Flow.block, ackData, clampUnack, afterPacket])
  · intro h _ flow hflow p hp
    cases ackStep_cases hflow with
    | accepted _ hs hlo hhi =>
        simp [Flow.block, ackSyn, clampUnack, listenFinish, post, setState, setNextState] at hp
        subst hp
        exact BitVec.le_trans hlo hhi
    | data hACK hdata pq' hpq' hhi =>
        obtain ⟨n, hn⟩ := (t.ackData pq' seg.tcph.ackNo).ackNextState_eq
        rw [hn] at hp
        simp [Flow.block, ackData, clampUnack, setNextState] at hp
        subst hp
        exact h hACK hdata
    | unsent hACK hdata pq' pq'' hpq' hhi hpq'' =>
        simp [Flow.block, ackData, clampUnack, afterPacket] at hp
        subst hp
        exact h hACK hdata
    | absent _ => simp [Flow.block] at hp
    | refused _ _ _ => simp [Flow.block] at hp
    | lastAck _ _ => simp [Flow.block, setNextState] at hp
    | timeWait _ _ _ _ => simp [Flow.block, afterPacket] at hp
    | unsynchronized _ _ => simp [Flow.block] at hp

end Clamps

/-! ## Idle segments

Those that pass the window test and change nothing, exactly. -/

section Idle

variable {t : Tcb} {seg : Segment}

/-- An acknowledgement of nothing new, of which the queue does not notice
either. -/
theorem ackData_send_iff {pq : CircularBuffer Byte} {ackNo : BitVec 32} (hpq : t.send.pq = some pq)
    (hordered : t.SendOrdered) (hhi : ¬ ackNo > t.send.state.seqNrNext) :
    (t.ackData pq ackNo).send = t.send ↔
      ackNo ≤ t.send.state.seqNrUnack ∧ (ackNo = t.send.state.seqNrUnack ∨ pq.size = 0) := by
  have hzero : (ackNo - t.send.state.seqNrUnack).toNat = 0 ↔ ackNo = t.send.state.seqNrUnack := by
    bv_omega
  have hclamp : SerialNumber.clamp ackNo t.send.state.seqNrUnack t.send.state.seqNrNext =
      t.send.state.seqNrUnack ↔ ackNo ≤ t.send.state.seqNrUnack := by
    by_cases hlt : ackNo < t.send.state.seqNrUnack
    · exact iff_of_true (SerialNumber.clamp_of_lt hlt hordered) (BitVec.le_of_lt hlt)
    · rw [SerialNumber.clamp_of_le (BitVec.not_lt.mp hlt) (BitVec.not_lt.mp hhi)]
      exact ⟨fun h => h ▸ BitVec.le_refl _, fun h => BitVec.le_antisymm h (BitVec.not_lt.mp hlt)⟩
  rw [← hclamp, ← hzero, ← pq.eraseBegin_min_eq_self_iff]
  constructor
  · intro h
    exact ⟨congrArg (fun send => send.state.seqNrUnack) h,
      Option.some.inj ((congrArg Send.pq h).trans hpq)⟩
  · rintro ⟨hunack, hqueue⟩
    show Send.mk { t.send.state with seqNrUnack := _ } (some _) = t.send
    rw [hunack, hqueue, ← hpq]

theorem ackNextState_eq_after (hdata : t.state.acksData = true) :
    t.ackNextState = t.setNextState t.nextStateAfterAck := by
  have hself : t = t.setNextState t.nextState := rfl
  unfold ackNextState nextStateAfterAck
  cases hs : t.state <;> simp only [hs, TcpState.acksData, Bool.false_eq_true] at hdata
  case finWait1 => simp [hs, setNextState]
  case closing => simp [hs]
  all_goals simpa [hs] using hself

/-- Behind the ACK step a segment without work writes `next_state_` at most. -/
theorem finStep_of_idle {u : Tcb} (htext : u.acceptsText seg = false)
    (hfin : seg.tcph.FIN = true → u.state ≠ .established ∧ u.state ≠ .synReceived) :
    (u.textStep seg >>= fun v => v.finStep seg) = .ok (u.setNextState
      (if seg.tcph.FIN = true ∧ (u.state = .finWait1 ∨ u.state = .finWait2) then .timeWait
      else u.nextState)) := by
  rw [textStep_eq, htext]
  show u.finStep seg = _
  unfold finStep
  by_cases hFIN : seg.tcph.FIN = true
  · obtain ⟨hest, hsyn⟩ := hfin hFIN
    rw [if_pos hFIN]
    cases hs : u.state <;> simp only [hFIN, reduceCtorEq, or_self, or_false, or_true, and_self,
      and_false, if_true, if_false]
    case synReceived => exact (hsyn hs).elim
    case established => exact (hest hs).elim
    case finWait1 => rw [finWait1Case_eq]
    all_goals rfl
  · rw [if_neg hFIN, if_neg fun h => hFIN h.1]
    rfl

/-- **An idle segment changes nothing.**  Not even `next_state_`, which the
steps write without looking; that is what the field `next` is for. -/
theorem Idle.acceptSegment {pq : CircularBuffer Byte} (h : Idle t seg)
    (hreach : t.reachesAckStep seg = true) (hpq : t.send.pq = some pq) :
    ∃ u, t.acceptSegment seg = .ok u ∧ u.unclamped = t.unclamped := by
  obtain ⟨flow, hflow⟩ := ackStep_total seg hpq
  have hnext := h.next
  unfold nextStateAfter at hnext
  rw [Tcb.acceptSegment, hflow, EventSystem.ok_bind]
  -- An idle segment takes none of the ways that send or move SND.UNA.
  cases ackStep_cases hflow with
  | absent hACK =>
      rw [hACK] at hnext
      refine ⟨_, finStep_of_idle h.text fun hFIN => ⟨(h.fin hFIN).1, fun hs => ?_⟩, ?_⟩
      · have hyes := (h.fin hFIN).2 hs
        rw [hACK] at hyes
        cases hyes
      · simp only [Bool.false_eq_true, if_false] at hnext
        rw [hnext]
        rfl
  | accepted hACK hs hlo hhi => exact (h.range hACK hs ⟨hlo, hhi⟩).elim
  | refused => exact ⟨t, rfl, rfl⟩
  | data hACK hdata pq' hpq' hhi =>
      obtain ⟨hordered, hlo, hqueue⟩ := h.data hACK hdata
      -- It acknowledges nothing new, so the queue keeps its bytes.
      have hsend := (ackData_send_iff hpq' hordered hhi).mpr ⟨hlo, hqueue.imp_right fun h => h _ hpq'⟩
      have hafter : (t.ackData pq' seg.tcph.ackNo).ackNextState =
          (t.ackData pq' seg.tcph.ackNo).setNextState t.nextStateAfterAck :=
        ackNextState_eq_after hdata
      rw [hafter]
      refine ⟨_, finStep_of_idle h.text fun hFIN => ⟨(h.fin hFIN).1, fun hs => ?_⟩, ?_⟩
      · have hs' : t.state = .synReceived := hs
        rw [hs'] at hdata
        cases hdata
      · rw [hACK] at hnext
        simp only [if_true] at hnext
        show ({ t.unclamped with
          send := (t.ackData pq' seg.tcph.ackNo).send
          nextState := if seg.tcph.FIN = true ∧ (t.state = .finWait1 ∨ t.state = .finWait2)
            then .timeWait else t.nextStateAfterAck } : Tcb) = _
        rw [hsend, hnext]
        rfl
  | unsent hACK hdata pq' pq'' hpq' hhi hpq'' =>
      obtain ⟨hordered, hlo, -⟩ := h.data hACK hdata
      exact (BitVec.not_lt.mpr (BitVec.le_trans hlo hordered) hhi).elim
  | lastAck hACK hs =>
      refine ⟨_, rfl, ?_⟩
      simp [hACK, hs, nextStateAfterAck] at hnext
      rw [hnext]
      rfl
  | timeWait hACK hs => exact (h.timeWait hACK hs).elim
  | unsynchronized _ hs => rw [reachesAckStep_synchronized hreach] at hs; cases hs

/-! ## What a segment leaves visible

What can be read off the block behind a segment. -/

/-- Text that is taken shows: a reader is gone, or the queue has grown. -/
theorem TextOutcome.shows {t' : Tcb} (h : TextOutcome t seg t')
    (hyes : t.acceptsText seg = true) :
    t'.onDataReceive ≠ t.onDataReceive ∨ t'.rcv.pq ≠ t.rcv.pq := by
  cases h with
  | ignored hno => rw [hyes] at hno; cases hno
  | delivered _ reader readers hreaders _ =>
      left
      intro heq
      have hlen := congrArg List.length (heq.trans hreaders)
      simp [afterDelivery] at hlen
  | appended _ _ _ =>
      right
      intro heq
      have hlen := congrArg (fun b => b.data.length) heq
      have htext : 0 < seg.text.length := by
        simp only [acceptsText, Bool.and_eq_true, decide_eq_true_eq] at hyes
        exact hyes.1.1
      simp only [afterAppend_data, List.length_append] at hlen
      omega

/-- What is left of a segment that changed nothing, behind the ACK step. -/
theorem idle_of_continued {u v t' : Tcb} (htext : TextOutcome u seg v)
    (hfin : FinOutcome v seg t') (hsame : t'.unclamped = t.unclamped)
    (hstate : u.state = t.state) (hrcv : u.rcv = t.rcv)
    (hreaders : u.onDataReceive = t.onDataReceive) (hmngr : u.mngr.length = t.mngr.length) :
    t.acceptsText seg = false ∧
      (seg.tcph.FIN = true → t.state ≠ .established ∧ t.state ≠ .synReceived) ∧
      t'.send = u.send ∧
      (if seg.tcph.FIN = true ∧ (t.state = .finWait1 ∨ t.state = .finWait2) then .timeWait
        else u.nextState) = t.nextState := by
  have hreaders' : t'.onDataReceive = t.onDataReceive := congrArg (fun x => x.onDataReceive) hsame
  have hpq' : t'.rcv.pq = t.rcv.pq := congrArg (fun x => x.rcv.pq) hsame
  have hmngr' : t'.mngr = t.mngr := congrArg (fun x => x.mngr) hsame
  have hnext' : t'.nextState = t.nextState := congrArg (fun x => x.nextState) hsame
  obtain ⟨hfr, hfp, -⟩ := hfin.frame
  -- Text that is taken shows in the readers or in the queue.
  have haccepts : u.acceptsText seg = false := by
    by_contra hyes
    rw [Bool.not_eq_false] at hyes
    rcases htext.shows hyes with hne | hne
    · exact hne (by rw [← hfr, hreaders', hreaders])
    · exact hne (by rw [← hfp, hpq', hrcv])
  have hv : v = u := by
    cases htext with
    | ignored _ => rfl
    | delivered hyes _ _ _ _ => rw [haccepts] at hyes; cases hyes
    | appended hyes _ _ => rw [haccepts] at hyes; cases hyes
  subst hv
  refine ⟨?_, ?_⟩
  · simpa only [acceptsText, textGuard, hstate, hrcv] using haccepts
  · cases hfin with
    | ignored hno =>
        rw [hstate] at hno
        refine ⟨fun hFIN => ?_, rfl, ?_⟩
        · rcases hno with hno | ⟨hsyn, htakes⟩
          · rw [hFIN] at hno; cases hno
          · exact ⟨(fun hs => by rw [hs] at htakes; cases htakes), hsyn⟩
        · rw [if_neg]
          · exact hnext'
          · rintro ⟨hFIN, hs⟩
            rcases hno with hno | ⟨-, htakes⟩
            · rw [hFIN] at hno; cases hno
            · rcases hs with hs | hs <;> rw [hs] at htakes <;> cases htakes
    | closed hFIN hs pq hpq =>
        -- The acknowledgement of a FIN is a packet.
        have hlen := congrArg List.length hmngr'
        simp [afterFin, afterPacket, setNextState, advanceRcvNext] at hlen
        omega
    | finWait hFIN hs =>
        rw [hstate] at hs
        refine ⟨fun _ => ?_, rfl, ?_⟩
        · rcases hs with hs | hs <;> rw [hs] <;> simp
        · rw [if_pos ⟨hFIN, hs⟩]
          exact hnext'

/-- **Only an idle segment changes nothing.**  The converse of
`Idle.acceptSegment`, field by field: whatever the segment might have done
would show in the block. -/
theorem idle_of_unchanged {isn : BitVec 32} {t' : Tcb} {pq : CircularBuffer Byte}
    (hreach : t.reachesAckStep seg = true) (hpq : t.send.pq = some pq)
    (hclamps : t.ClampsOrdered seg) (h : t.process isn seg = .ok t')
    (hsame : t'.unclamped = t.unclamped) : Idle t seg := by
  have hstate' : t'.state = t.state := congrArg (fun x => x.state) hsame
  have hnext' : t'.nextState = t.nextState := congrArg (fun x => x.nextState) hsame
  have hmngr' : t'.mngr.length = t.mngr.length := congrArg (fun x => x.mngr.length) hsame
  have hsend' : t'.send = t.send := congrArg (fun x => x.send) hsame
  have hordered := (clampsOrdered_iff hreach ⟨pq, hpq⟩).mp hclamps
  rcases process_reached hreach h with hack | ⟨u, v, hack, htext, hfin⟩
  · cases hack with
    | refused hACK hs hrange =>
        refine ⟨fun _ _ => hrange, ?_, ?_, ?_, ?_, ?_⟩
        · intro _ hdata; rw [hs] at hdata; cases hdata
        · intro _; rw [hs]; simp
        · simp [acceptsText, hs, TcpState.takesText]
        · intro _; rw [hs]; exact ⟨by simp, fun _ => hACK⟩
        · simp [nextStateAfter, nextStateAfterAck, hs]
    | unsent _ _ pq' pq'' _ _ _ =>
        simp [afterPacket, ackData, clampUnack] at hmngr'
    | lastAck hACK hs =>
        refine ⟨?_, ?_, ?_, ?_, ?_, ?_⟩
        · intro _ hsyn; rw [hs] at hsyn; cases hsyn
        · intro _ hdata; rw [hs] at hdata; cases hdata
        · intro _; rw [hs]; simp
        · simp [acceptsText, hs, TcpState.takesText]
        · intro _; rw [hs]; simp
        · simp only [nextStateAfter, nextStateAfterAck, hs, hACK, reduceCtorEq, or_self, and_false,
            if_false, if_true]
          exact hnext'
  · cases hack with
    | absent hACK =>
        obtain ⟨haccepts, hclosing, -, hnext⟩ :=
          idle_of_continued htext hfin hsame rfl rfl rfl rfl
        have hno : ¬ seg.tcph.ACK = true := by rw [hACK]; simp
        refine ⟨fun hyes => (hno hyes).elim, fun hyes => (hno hyes).elim,
          fun hyes => (hno hyes).elim, haccepts, fun hFIN => ?_, ?_⟩
        · exact ⟨(hclosing hFIN).1, fun hs => ((hclosing hFIN).2 hs).elim⟩
        · rw [nextStateAfter, hACK]
          exact hnext
    | accepted hACK hs hlo hhi =>
        -- The ACK of the SYN takes the block out of SYN-RECEIVED for good.
        have hne : t'.state ≠ .synReceived := by
          have hv : v.state = .established := htext.state_eq
          cases hfin with
          | ignored _ => rw [hv]; simp
          | closed _ _ _ _ => show TcpState.closeWait ≠ _; simp
          | finWait _ _ => show v.state ≠ _; rw [hv]; simp
        exact (hne (hstate'.trans hs)).elim
    | data hACK hdata pq' hpq' hhi =>
        have hafter : (t.ackData pq' seg.tcph.ackNo).ackNextState =
            (t.ackData pq' seg.tcph.ackNo).setNextState t.nextStateAfterAck :=
          ackNextState_eq_after hdata
        rw [hafter] at htext
        obtain ⟨haccepts, hclosing, hsend, hnext⟩ :=
          idle_of_continued htext hfin hsame rfl rfl rfl rfl
        have hord := hordered hACK hdata
        have hidle := (ackData_send_iff hpq' hord hhi).mp (hsend.symm.trans hsend')
        refine ⟨?_, fun _ _ => ⟨hord, hidle.1, hidle.2.imp_right fun hsize pq hpq => ?_⟩, ?_,
          haccepts, fun hFIN => ?_, ?_⟩
        · intro _ hs; rw [hs] at hdata; cases hdata
        · rw [hpq'] at hpq
          cases hpq
          exact hsize
        · intro _ hs; rw [hs] at hdata; cases hdata
        · exact ⟨(hclosing hFIN).1, fun _ => hACK⟩
        · rw [nextStateAfter, hACK]
          exact hnext
    | timeWait hACK hs pq' hpq' =>
        -- TIME-WAIT answers, and packets are never taken back.
        have hle := hfin.frame.2.2
        rw [htext.mngr_eq, afterPacket_mngr, List.length_append, List.length_singleton] at hle
        omega
    | unsynchronized _ hs => rw [reachesAckStep_synchronized hreach] at hs; cases hs

end Idle

/-! ## The condition is enough -/

section Sufficient

variable {isn r s : BitVec 32} {t : Tcb} {seg : Segment} {pq : CircularBuffer Byte}

theorem unclamped_translate (t : Tcb) :
    (t.translate r s).unclamped = t.unclamped.translate r s := rfl

/-- Both window tests let the segment through. -/
theorem Agrees.commutes (hreach : t.reachesAckStep seg = true)
    (h : Agrees t seg (t.translate r s) (seg.translate r s)) :
    (t.translate r s).acceptSegment (seg.translate r s) =
      (t.acceptSegment seg).map (translate r s) := by
  refine acceptSegment_translate h.toAckAgrees fun u hu => ?_
  have hack := ackStep_cases hu
  have haccepts := hack.acceptsText_iff hreach
  have hstate := hack.textState_eq hreach
  have hrcv : u.rcv = t.rcv := hack.frame.1
  have hguard : (u.translate r s).textGuard (seg.translate r s).tcph =
      (t.translate r s).textGuard (seg.translate r s).tcph := by
    have hmoved : (u.translate r s).rcv = (t.translate r s).rcv := by simp only [translate, hrcv]
    rw [textGuard, textGuard, hmoved]
  rw [haccepts, acceptsText, translate_text, translate_state, hstate, hguard]
  by_cases htext : 0 < seg.text.length
  · cases htakes : (t.textState seg).takesText with
    | false => simp only [Bool.and_false, Bool.false_and]
    | true => rw [h.text (hack.reachesGuard htext htakes)]
  · simp only [htext, decide_false, Bool.false_and]

theorem Translatable.invariant (hsync : t.state.synchronized = true) (hpq : t.send.pq = some pq)
    (h : Translatable t seg (t.translate r s) (seg.translate r s)) :
    TranslationInvariant isn r s t seg := by
  have hprocess : t.process isn seg = if t.reachesAckStep seg then t.acceptSegment seg else .ok t :=
    process_of_synchronized hsync
  have hprocess' : (t.translate r s).process isn (seg.translate r s) =
      if (t.translate r s).reachesAckStep (seg.translate r s) then
        (t.translate r s).acceptSegment (seg.translate r s)
      else .ok (t.translate r s) := process_of_synchronized hsync
  cases hreach : t.reachesAckStep seg with
  | true =>
      rw [hreach, if_pos rfl] at hprocess
      cases hreach' : (t.translate r s).reachesAckStep (seg.translate r s) with
      | true =>
          -- Both blocks handle the segment: the decisions agree, and so does what follows.
          have hagrees := h.both hreach hreach'
          rw [hreach', if_pos rfl, hagrees.commutes hreach] at hprocess'
          refine ⟨?_, ?_, ?_⟩
          · rw [hprocess, hprocess']
            cases t.acceptSegment seg <;> rfl
          · exact (clampsOrdered_iff hreach ⟨pq, hpq⟩).mpr fun hACK hdata =>
              (hagrees.ordered hACK hdata).1
          · exact (clampsOrdered_iff hreach' ⟨pq, hpq⟩).mpr fun hACK hdata =>
              (hagrees.ordered hACK hdata).2
      | false =>
          -- Only one block handles the segment, so for that one it has to be idle.
          have hidle := h.left hreach hreach'
          obtain ⟨u, hu, hsame⟩ := hidle.acceptSegment hreach hpq
          rw [hreach', if_neg (by nofun)] at hprocess'
          refine ⟨?_, ?_, fun hyes => ?_⟩
          · rw [hprocess, hprocess', hu]
            show Except.ok (t.translate r s).unclamped = .ok (u.translate r s).unclamped
            rw [unclamped_translate, unclamped_translate, hsame]
          · exact (clampsOrdered_iff hreach ⟨pq, hpq⟩).mpr fun hACK hdata =>
              (hidle.data hACK hdata).1
          · rw [hreach'] at hyes
            cases hyes
  | false =>
      rw [hreach, if_neg (by nofun)] at hprocess
      cases hreach' : (t.translate r s).reachesAckStep (seg.translate r s) with
      | true =>
          have hidle := h.right hreach hreach'
          obtain ⟨u, hu, hsame⟩ := hidle.acceptSegment hreach' hpq
          rw [hreach', if_pos rfl, hu] at hprocess'
          refine ⟨?_, fun hyes => ?_, ?_⟩
          · rw [hprocess, hprocess']
            exact congrArg Except.ok hsame
          · rw [hreach] at hyes
            cases hyes
          · exact (clampsOrdered_iff hreach' ⟨pq, hpq⟩).mpr fun hACK hdata =>
              (hidle.data hACK hdata).1
      | false =>
          rw [hreach', if_neg (by nofun)] at hprocess'
          refine ⟨?_, fun hyes => ?_, fun hyes => ?_⟩
          · rw [hprocess, hprocess']
            rfl
          · rw [hreach] at hyes
            cases hyes
          · rw [hreach'] at hyes
            cases hyes

end Sufficient

/-! ## The condition is necessary

Two blocks that differ in their numbers only, and a segment for each. -/

/-- What two blocks have in common whose numbers differ. -/
structure Similar (t u : Tcb) : Prop where
  state : t.state = u.state
  nextState : t.nextState = u.nextState
  mngr : t.mngr.length = u.mngr.length
  readers : t.onDataReceive = u.onDataReceive
  pq : t.rcv.pq = u.rcv.pq

theorem Similar.symm {t u : Tcb} (h : Similar t u) : Similar u t :=
  ⟨h.state.symm, h.nextState.symm, h.mngr.symm, h.readers.symm, h.pq.symm⟩

theorem similar_of_unclamped {r s : BitVec 32} {t u : Tcb}
    (h : u.unclamped = (t.translate r s).unclamped) : Similar t u := by
  refine ⟨(congrArg (fun x => x.state) h).symm, (congrArg (fun x => x.nextState) h).symm, ?_,
    (congrArg (fun x => x.onDataReceive) h).symm, (congrArg (fun x => x.rcv.pq) h).symm⟩
  have hlen : u.mngr.length = (t.mngr.map (TcpPacket.translate r s)).length :=
    congrArg (fun x => x.mngr.length) h
  rw [hlen, List.length_map]

section Necessary

variable {isn : BitVec 32} {t u : Tcb} {seg v : Segment} {pq : CircularBuffer Byte}

/-- Whatever `t` ends in, `u` ends in something similar. -/
def Follows (isn : BitVec 32) (t : Tcb) (seg : Segment) (u : Tcb) (v : Segment) : Prop :=
  ∀ t', t.process isn seg = .ok t' → ∃ u', u.process isn v = .ok u' ∧ Similar t' u'

/-- A number outside the range leaves SYN-RECEIVED alone; one inside never
does. -/
theorem Follows.range (h : Follows isn t seg u v) (hsim : Similar t u)
    (hreach : t.reachesAckStep seg = true) (hreach' : u.reachesAckStep v = true)
    (hACK : seg.tcph.ACK = true) (hACK' : v.tcph.ACK = true) (hs : t.state = .synReceived)
    (hin : u.AckInRange v) : t.AckInRange seg := by
  by_contra hout
  have hprocess : t.process isn seg = .ok t := by
    rw [process_of_synchronized (reachesAckStep_synchronized hreach), if_pos hreach, acceptSegment,
      ackStep_of_synReceived hACK hs, if_neg hout]
    rfl
  obtain ⟨u', hu', hsim'⟩ := h t hprocess
  have hs' : u.state = .synReceived := hsim.state.symm.trans hs
  have hend : u'.state = .synReceived := hsim'.state.symm.trans hs
  rcases process_reached hreach' hu' with hack | ⟨w, x, hack, htext, hfin⟩
  · cases hack with
    | refused _ _ hrange => exact hrange hin
    | unsent _ hdata => rw [hs'] at hdata; cases hdata
    | lastAck _ hlast => rw [hs'] at hlast; cases hlast
  · have hw : w.state = .established := by
      rw [hack.textState_eq hreach', textState, if_pos hACK', hs']
    have hx := htext.state_eq.trans hw
    cases hfin with
    | ignored _ => rw [hx] at hend; cases hend
    | closed _ _ _ _ => cases hend
    | finWait _ hwait => rcases hwait with hwait | hwait <;> rw [hx] at hwait <;> cases hwait

/-- A number past SND.NXT is answered with a packet, and the block ends in the
state that was pending; otherwise nothing is sent, or the FIN step sends and
leaves another state pending. -/
theorem Follows.unsent (h : Follows isn t seg u v) (hsim : Similar t u)
    (hreach : t.reachesAckStep seg = true) (hreach' : u.reachesAckStep v = true)
    (hACK : seg.tcph.ACK = true) (hACK' : v.tcph.ACK = true) (hdata : t.state.acksData = true)
    (hpq : t.send.pq = some pq) (hunsent : t.AckUnsent seg) : u.AckUnsent v := by
  by_contra hsent
  obtain ⟨pq', hpq'⟩ : ∃ pq', (t.ackData pq seg.tcph.ackNo).send.pq = some pq' := ⟨_, rfl⟩
  have hprocess : t.process isn seg = .ok ((t.ackData pq seg.tcph.ackNo).afterPacket pq') := by
    rw [process_of_synchronized (reachesAckStep_synchronized hreach), if_pos hreach, acceptSegment,
      ackStep_of_acksData hACK hdata, ackEstablished, sendPq_ok.mpr hpq]
    have hgt : seg.tcph.ackNo > (t.ackData pq seg.tcph.ackNo).send.state.seqNrNext := hunsent
    simp only [EventSystem.ok_bind]
    rw [if_pos hgt, makeAndSendPkt_ok.mpr ⟨pq', hpq', rfl⟩]
    rfl
  obtain ⟨u', hu', hsim'⟩ := h _ hprocess
  -- The other block must send one packet too and end in the pending state.
  have hlen : u'.mngr.length = t.mngr.length + 1 := by
    rw [← hsim'.mngr, afterPacket_mngr, List.length_append]
    rfl
  have hpending : u'.state = u'.nextState := hsim'.state.symm.trans hsim'.nextState
  have hdata' : u.state.acksData = true := by rw [← hsim.state]; exact hdata
  rcases process_reached hreach' hu' with hack | ⟨w, x, hack, htext, hfin⟩
  · cases hack with
    | refused _ hs => rw [hs] at hdata'; cases hdata'
    | unsent _ _ _ _ _ hhi => exact hsent hhi
    | lastAck _ hs => rw [hs] at hdata'; cases hdata'
  · cases hack with
    | absent hno => rw [hACK'] at hno; cases hno
    | accepted _ hs => rw [hs] at hdata'; cases hdata'
    | data _ _ pq'' hpq'' _ =>
        obtain ⟨n, hn⟩ := (u.ackData pq'' v.tcph.ackNo).ackNextState_eq
        rw [hn] at htext
        have hx : x.mngr.length = t.mngr.length := by
          rw [htext.mngr_eq]
          exact hsim.mngr.symm
        -- Behind the ACK step only a FIN sends, and it leaves another state pending.
        cases hfin with
        | ignored _ => omega
        | closed _ _ _ _ => cases hpending
        | finWait _ _ =>
            change x.mngr.length = _ at hlen
            omega
    | timeWait _ hs => rw [hs] at hdata'; cases hdata'
    | unsynchronized _ hs => rw [TcpState.synchronized_of_acksData hdata'] at hs; cases hs

/-- Text that is dropped does not show; text that is taken does. -/
theorem Follows.guard (h : Follows isn t seg u v) (hsim : Similar t u)
    (hreach : t.reachesAckStep seg = true) (hreach' : u.reachesAckStep v = true)
    (hpq : t.send.pq = some pq) (hguard : t.ReachesGuard seg)
    (hguard' : u.ReachesGuard v) (hyes : u.textGuard v.tcph = true) :
    t.textGuard seg.tcph = true := by
  by_contra hno
  rw [Bool.not_eq_true] at hno
  obtain ⟨w, hw⟩ := hguard.next hpq
  have hack := ackStep_cases hw
  have haccepts : w.acceptsText seg = false := by
    rw [hack.acceptsText_iff hreach, hno, Bool.and_false]
  obtain ⟨pq'', hpq''⟩ := hack.keeps_queue ⟨pq, hpq⟩
  obtain ⟨t', ht'⟩ := finStep_total seg hpq''
  have hprocess : t.process isn seg = .ok t' := by
    rw [process_of_synchronized (reachesAckStep_synchronized hreach), if_pos hreach, acceptSegment,
      hw]
    show (w.textStep seg >>= fun x => x.finStep seg) = _
    rw [textStep_eq, haccepts]
    exact ht'
  -- Nothing of the text shows in `t`, …
  have hsame : t'.onDataReceive = t.onDataReceive ∧ t'.rcv.pq = t.rcv.pq := by
    obtain ⟨hreaders, hqueue, -⟩ := (finStep_cases ht').frame
    obtain ⟨hrcv, hreaders', -⟩ := hack.frame
    exact ⟨hreaders.trans hreaders', hqueue.trans (congrArg Receive.pq hrcv)⟩
  obtain ⟨u', hu', hsim'⟩ := h _ hprocess
  rcases process_reached hreach' hu' with hret | ⟨x, y, hack', htext, hfin⟩
  · exact hguard'.not_ret hret
  · -- … but the other block takes it, and then it does show.
    have hshow : x.acceptsText v = true := by
      rw [hack'.acceptsText_iff hreach', hyes, hguard'.state, decide_eq_true hguard'.text]
      rfl
    obtain ⟨hreaders, hqueue, -⟩ := hfin.frame
    obtain ⟨hrcv, hreaders', -⟩ := hack'.frame
    rcases htext.shows hshow with hne | hne
    · refine hne ?_
      rw [← hreaders, ← hsim'.readers, hsame.1, hsim.readers]
      exact hreaders'.symm
    · refine hne ?_
      rw [← hqueue, ← hsim'.pq, hsame.2, hsim.pq]
      exact (congrArg Receive.pq hrcv).symm

end Necessary

section Exact

variable {isn r s : BitVec 32} {t : Tcb} {seg : Segment} {pq : CircularBuffer Byte}

theorem similar_translate (r s : BitVec 32) (t : Tcb) : Similar t (t.translate r s) :=
  similar_of_unclamped rfl

/-- Both ways, since the two results are equal up to the move. -/
theorem TranslationInvariant.follows (h : TranslationInvariant isn r s t seg) :
    Follows isn t seg (t.translate r s) (seg.translate r s) ∧
      Follows isn (t.translate r s) (seg.translate r s) t seg := by
  have hcommutes := h.commutes
  constructor
  · intro t' ht'
    rw [ht'] at hcommutes
    cases hu : (t.translate r s).process isn (seg.translate r s) with
    | error f => rw [hu] at hcommutes; cases hcommutes
    | ok u =>
        rw [hu] at hcommutes
        exact ⟨u, rfl, similar_of_unclamped (Except.ok.inj hcommutes)⟩
  · intro u hu
    rw [hu] at hcommutes
    cases ht : t.process isn seg with
    | error f => rw [ht] at hcommutes; cases hcommutes
    | ok t' =>
        rw [ht] at hcommutes
        exact ⟨t', rfl, (similar_of_unclamped (Except.ok.inj hcommutes)).symm⟩

theorem TranslationInvariant.agrees (h : TranslationInvariant isn r s t seg)
    (hpq : t.send.pq = some pq) (hreach : t.reachesAckStep seg = true)
    (hreach' : (t.translate r s).reachesAckStep (seg.translate r s) = true) :
    Agrees t seg (t.translate r s) (seg.translate r s) := by
  obtain ⟨hto, hback⟩ := h.follows
  have hsim := similar_translate r s t
  have hack : AckAgrees t seg (t.translate r s) (seg.translate r s) := by
    refine ⟨fun hACK hs => ⟨?_, ?_⟩, fun hACK hdata => ⟨?_, ?_⟩, fun hACK hdata => ⟨?_, ?_⟩⟩
    · exact hback.range hsim.symm hreach' hreach hACK hACK hs
    · exact hto.range hsim hreach hreach' hACK hACK hs
    · exact (clampsOrdered_iff hreach ⟨pq, hpq⟩).mp h.ordered hACK hdata
    · exact (clampsOrdered_iff hreach' ⟨pq, hpq⟩).mp h.ordered' hACK hdata
    · exact hto.unsent hsim hreach hreach' hACK hACK hdata hpq
    · exact hback.unsent hsim.symm hreach' hreach hACK hACK hdata hpq
  refine ⟨hack, fun hguard => ?_⟩
  have hguard' : (t.translate r s).ReachesGuard (seg.translate r s) :=
    ⟨hguard.text, hguard.state, fun hACK hs => (hack.range hACK hs).mp (hguard.range hACK hs),
      fun hACK hdata hunsent => hguard.unsent hACK hdata ((hack.unsent hACK hdata).mpr hunsent)⟩
  rw [Bool.eq_iff_iff]
  exact ⟨hback.guard hsim.symm hreach' hreach hpq hguard' hguard,
    hto.guard hsim hreach hreach' hpq hguard hguard'⟩

/-- **Exactly when `process` commutes with translating the sequence numbers**,
for a block in SYN-RECEIVED or a later state.  In LISTEN and SYN-SENT the ISN
is drawn or the peer's is learned, and there is nothing to translate yet.

The condition is one on the block, the segment and their translations, made of
the comparisons that `process` makes; no result of `process` appears in it. -/
theorem translation_invariant_iff (hsync : t.state.synchronized = true)
    (hpq : t.send.pq = some pq) :
    TranslationInvariant isn r s t seg ↔
      Translatable t seg (t.translate r s) (seg.translate r s) := by
  refine ⟨fun h => ⟨h.agrees hpq, fun hreach hreach' => ?_, fun hreach hreach' => ?_⟩,
    fun h => h.invariant hsync hpq⟩
  · -- The moved block drops the segment, so the block itself ends as it began.
    have hprocess' : (t.translate r s).process isn (seg.translate r s) = .ok (t.translate r s) := by
      have hsync' : (t.translate r s).state.synchronized = true := hsync
      rw [process_of_synchronized hsync', hreach']
      rfl
    have hcommutes := h.commutes
    rw [hprocess'] at hcommutes
    cases ht : t.process isn seg with
    | error f => rw [ht] at hcommutes; cases hcommutes
    | ok t' =>
        rw [ht] at hcommutes
        have hsame : t.unclamped.translate r s = t'.unclamped.translate r s :=
          Except.ok.inj hcommutes
        exact idle_of_unchanged hreach hpq h.ordered ht (translate_injective hsame).symm
  · have hprocess : t.process isn seg = .ok t := by
      rw [process_of_synchronized hsync, hreach]
      rfl
    have hcommutes := h.commutes
    rw [hprocess] at hcommutes
    cases hu : (t.translate r s).process isn (seg.translate r s) with
    | error f => rw [hu] at hcommutes; cases hcommutes
    | ok u =>
        rw [hu] at hcommutes
        exact idle_of_unchanged hreach' hpq h.ordered' hu (Except.ok.inj hcommutes)

end Exact

/-- A segment of two bytes for the block `established 7 100 2 500`. -/
def twoBytes : Segment :=
  ⟨{ TcpHeader.bare with ACK := true, seqNo := 101, ackNo := 8 }, [], [0x61, 0x62]⟩

/-- A move that carries nothing over the end of the circle. -/
theorem twoBytes_translates :
    (established 7 100 2 500).state.synchronized = true ∧
      TranslationInvariant 7 16 32 (established 7 100 2 500) twoBytes := by
  have hsync : (established 7 100 2 500).state.synchronized = true := rfl
  refine ⟨hsync, (translation_invariant_iff hsync rfl).mpr ⟨fun _ _ => ⟨⟨?_, ?_, ?_⟩, ?_⟩, ?_, ?_⟩⟩
  · intro _ hs; cases hs
  · intro _ _; exact ⟨by decide, by decide⟩
  · intro _ _; decide
  · intro _; rfl
  · intro _ h; cases h
  · intro h; cases h

/-- A FIN for the same block, at RCV.NXT. -/
def closingFin : Segment :=
  ⟨{ TcpHeader.bare with ACK := true, FIN := true, seqNo := 101, ackNo := 8 }, [], []⟩

/-- The same FIN is taken with RCV.NXT = 101 and dropped with RCV.NXT =
`2 ^ 32 - 155`, where RCV.NXT plus the window wraps. -/
theorem fin_dropped_at_wrap :
    (∃ t, (established 7 100 2 500).process 7 closingFin = .ok t ∧ t.state = .closeWait) ∧
    ((established 7 100 2 500).translate 0xFFFFFF00 0).process 7
        (closingFin.translate 0xFFFFFF00 0) =
      .ok ((established 7 100 2 500).translate 0xFFFFFF00 0) ∧
    ¬ TranslationInvariant 7 0xFFFFFF00 0 (established 7 100 2 500) closingFin := by
  refine ⟨⟨_, rfl, rfl⟩, rfl, fun h => ?_⟩
  have hstate := congrArg (Except.map fun t => t.state) h.commutes
  cases hstate

end Tcb

end Mstack
