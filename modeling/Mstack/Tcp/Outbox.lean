import Mstack.Tcp.Translation

/-!
# The packets a block hands out

What a block gives to `mngr_.enqueue` leaves it for good: nothing that the
block does depends on what it has handed out before, and a step only adds at
the end (`step_behind`).  So the channel out of a block can be emptied by
somebody else, one packet at a time or all at once, and the block will not
notice.

In the model `mngr` is a field of the block, since that is where the packets of
a run are looked up.  This module is what makes it a *log* and not a state:
`behind m t` is the block `t`, had it handed out `m` before, and every function
commutes with it.

At the other end a block looks at every field of the header but one: the
checksum, which the layers below fill in (`process_chsum`).

Both facts are used where two blocks meet: `Tcp.RoundTrip` and the modules on
whole hosts run a block whose packets somebody takes away.
-/

namespace Mstack

open EventSystem (Admitted)

namespace Tcb

/-! ## Nothing reads it

One equation for each function. -/

/-- The block, had it handed out `m` before. -/
def behind (m : List TcpPacket) (t : Tcb) : Tcb := { t with mngr := m ++ t.mngr }

end Tcb

/-- A way out of a step of `process`, had the block handed out `m` before. -/
def Flow.behind (m : List TcpPacket) : Flow → Flow
  | .ret t => .ret (t.behind m)
  | .next t => .next (t.behind m)

namespace Tcb

section Behind

variable (m : List TcpPacket) (t : Tcb) (seg : Segment)

@[simp] theorem behind_mngr : (t.behind m).mngr = m ++ t.mngr := rfl
@[simp] theorem behind_state : (t.behind m).state = t.state := rfl
@[simp] theorem behind_pq : (t.behind m).send.pq = t.send.pq := rfl
@[simp] theorem behind_ioCtx : (t.behind m).ioCtx = t.ioCtx := rfl

theorem afterPacket_behind (pq : CircularBuffer Byte) :
    (t.behind m).afterPacket pq = (t.afterPacket pq).behind m := by
  unfold afterPacket behind
  rw [List.append_assoc]
  rfl

theorem makeAndSendPkt_behind :
    (t.behind m).makeAndSendPkt = t.makeAndSendPkt.map (behind m) := by
  rw [makeAndSendPkt_eq, makeAndSendPkt_eq, behind_pq]
  cases t.send.pq with
  | none => rfl
  | some pq => exact congrArg Except.ok (afterPacket_behind m t pq)

theorem sendLoopFuel_behind {pq : CircularBuffer Byte} (fuel : ℕ) {t : Tcb}
    (hpq : t.send.pq = some pq) :
    sendLoopFuel fuel (t.behind m) = (sendLoopFuel fuel t).map (behind m) := by
  induction fuel generalizing t with
  | zero => rfl
  | succ fuel ih =>
      rw [sendLoopFuel_succ hpq, sendLoopFuel_succ (t := t.behind m) hpq]
      change (if t.appDataToSendLeft pq = 0 then _ else _) = _
      split
      · rfl
      · rw [afterPacket_behind]
        exact ih hpq

theorem sendLoop_behind : (t.behind m).sendLoop = t.sendLoop.map (behind m) := by
  cases hpq : t.send.pq with
  | none => simp only [sendLoop, sendPq, behind_pq, hpq]; rfl
  | some pq =>
      rw [sendLoop_eq hpq, sendLoop_eq (t := t.behind m) hpq]
      exact sendLoopFuel_behind m _ hpq

/-! ### The steps of `process` -/

theorem ackNextState_behind : (t.behind m).ackNextState = t.ackNextState.behind m := by
  unfold ackNextState
  by_cases hfin : t.state = .finWait1
  · simp [hfin, setNextState, behind]
  · by_cases hclosing : t.state = .closing <;> simp [hfin, hclosing, setNextState, behind]

theorem ackEstablished_behind (ackNo : BitVec 32) :
    (t.behind m).ackEstablished ackNo = (t.ackEstablished ackNo).map (Flow.behind m) := by
  unfold ackEstablished sendPq
  rw [behind_pq]
  cases t.send.pq with
  | none => rfl
  | some pq =>
      simp only [EventSystem.ok_bind]
      change (if ackNo > (t.ackData pq ackNo).send.state.seqNrNext then
        Tcb.makeAndSendPkt ((t.ackData pq ackNo).behind m) >>= _ else _) = _
      split
      · rw [makeAndSendPkt_behind]
        cases (t.ackData pq ackNo).makeAndSendPkt <;> rfl
      · exact congrArg (Except.ok ∘ Flow.next) (ackNextState_behind m (t.ackData pq ackNo))

theorem ackStep_behind :
    (t.behind m).ackStep seg = (t.ackStep seg).map (Flow.behind m) := by
  unfold ackStep
  rw [behind_state]
  split
  · rfl
  · cases t.state <;> dsimp only
    case synReceived =>
      change (if t.AckInRange seg then _ else _) = Except.map _ (if t.AckInRange seg then _ else _)
      split <;> rfl
    case timeWait =>
      rw [makeAndSendPkt_behind]
      cases t.makeAndSendPkt <;> rfl
    case lastAck => rfl
    all_goals first | rfl | exact ackEstablished_behind m t seg.tcph.ackNo

theorem deliverToReader_behind (reader : Reader) (readers : List Reader) (text : List Byte) :
    (t.behind m).deliverToReader reader readers text =
      (t.deliverToReader reader readers text).map (behind m) := by
  unfold deliverToReader
  change (if ¬ t.rcv.pq.empty then _ else _) = _
  split <;> rfl

theorem appendToQueue_behind (text : List Byte) :
    (t.behind m).appendToQueue text = (t.appendToQueue text).map (behind m) := by
  unfold appendToQueue
  change (if t.rcv.pq.size + text.length > t.rcv.pq.capacity then _ else _) = _
  split <;> rfl

theorem acceptText_behind (text : List Byte) :
    (t.behind m).acceptText text = (t.acceptText text).map (behind m) := by
  obtain ⟨u, hu⟩ : ∃ u : Tcb, u = { t with trace := { t.trace with
    acceptedText := t.trace.acceptedText ++ [text] } } := ⟨_, rfl⟩
  have hleft : u.behind m = { t.behind m with trace := { (t.behind m).trace with
      acceptedText := (t.behind m).trace.acceptedText ++ [text] } } := by rw [hu]; rfl
  cases hreaders : t.onDataReceive with
  | nil =>
      rw [acceptText_of_nil (t := t.behind m) text hreaders hleft,
        acceptText_of_nil text hreaders hu]
      exact appendToQueue_behind m u text
  | cons reader readers =>
      rw [acceptText_of_cons (t := t.behind m) text hreaders hleft,
        acceptText_of_cons text hreaders hu]
      exact deliverToReader_behind m u reader readers text

theorem textStep_behind : (t.behind m).textStep seg = (t.textStep seg).map (behind m) := by
  rw [textStep_eq, textStep_eq]
  change (if t.acceptsText seg = true then _ else _) = _
  split
  · exact acceptText_behind m t seg.text
  · rfl

theorem establishedCase_behind :
    (t.behind m).establishedCase = t.establishedCase.map (behind m) := by
  have hsend := makeAndSendPkt_behind m ((t.advanceRcvNext 1).setNextState .closeWait)
  unfold establishedCase
  change (Tcb.makeAndSendPkt (behind m ((t.advanceRcvNext 1).setNextState .closeWait)) >>= _) = _
  rw [hsend]
  cases ((t.advanceRcvNext 1).setNextState .closeWait).makeAndSendPkt with
  | error f => rfl
  | ok u =>
      show Except.ok (u.behind m).finWait1Case = Except.ok (u.finWait1Case.behind m)
      rw [finWait1Case_eq, finWait1Case_eq]
      rfl

theorem finStep_behind : (t.behind m).finStep seg = (t.finStep seg).map (behind m) := by
  unfold finStep
  rw [behind_state]
  split
  · cases t.state <;> dsimp only
    case synReceived => exact establishedCase_behind m t
    case established => exact establishedCase_behind m t
    case finWait1 =>
      rw [finWait1Case_eq, finWait1Case_eq]
      rfl
    all_goals rfl
  · rfl

/-- **An arriving segment.** -/
theorem process_behind (isn : BitVec 32) :
    (t.behind m).process isn seg = (t.process isn seg).map (behind m) := by
  -- The synchronised states share one path, so it is done once.
  have haccept : (t.behind m).acceptSegment seg = (t.acceptSegment seg).map (behind m) := by
    unfold acceptSegment
    rw [ackStep_behind]
    rcases t.ackStep seg with f | (u | u)
    · rfl
    · rfl
    · change Tcb.textStep (u.behind m) seg >>= _ = Except.map _ (u.textStep seg >>= _)
      rw [textStep_behind]
      rcases u.textStep seg with f | v
      · rfl
      · exact finStep_behind m v seg
  have hsync : (if (t.behind m).reachesAckStep seg then (t.behind m).acceptSegment seg
      else .ok (t.behind m)) =
      (if t.reachesAckStep seg then t.acceptSegment seg else .ok t).map (behind m) := by
    change (if t.reachesAckStep seg = true then _ else _) = _
    split
    · exact haccept
    · rfl
  unfold process
  rw [behind_state]
  cases t.state <;> dsimp only
  case closed => rfl
  -- The opening states test the options before they send anything.
  case listen =>
    unfold tcpHandleListenState
    split
    · rfl
    · split
      · rfl
      · split
        · cases decodeOptions seg.opts with
          | error f => rfl
          | ok opts => exact makeAndSendPkt_behind m (t.acceptSyn isn seg opts)
        · rfl
  case synSent =>
    unfold tcpHandleSynSent
    split
    · change (if ¬ seg.tcph.ackNo < t.send.state.seqNrUnack ∧
        ¬ seg.tcph.ackNo > t.send.state.seqNrNext then _ else _) = _
      split
      · cases decodeOptions seg.opts with
        | error f => rfl
        | ok opts =>
            change Tcb.makeAndSendPkt ((t.acceptSynAck seg opts).behind m) >>= _ =
              Except.map _ ((t.acceptSynAck seg opts).makeAndSendPkt >>= _)
            rw [makeAndSendPkt_behind]
            cases (t.acceptSynAck seg opts).makeAndSendPkt <;> rfl
      · rfl
    · rfl
  all_goals exact hsync

/-! ### The other events -/

theorem appCall_behind (c : AppCall) :
    (t.behind m).appCall c = (t.appCall c).map (behind m) := by
  cases c with
  | read size cb =>
      change Except.ok ((t.behind m).asyncReadSome size cb) =
        Except.ok ((t.asyncReadSome size cb).behind m)
      rw [asyncReadSome_eq, asyncReadSome_eq]
      change Except.ok (if t.rcv.pq.data = [] then _ else _) = _
      split <;> rfl
  | write buf cb =>
      change (t.behind m).asyncWrite buf cb = (t.asyncWrite buf cb).map (behind m)
      rw [asyncWrite_eq, asyncWrite_eq, behind_pq]
      cases t.send.pq with
      | none => rfl
      | some pq => dsimp only; split <;> rfl

theorem appCalls_behind (calls : List AppCall) (t : Tcb) :
    (t.behind m).appCalls calls = (t.appCalls calls).map (behind m) := by
  induction calls generalizing t with
  | nil => rfl
  | cons c calls ih =>
      change Tcb.appCall (t.behind m) c >>= _ = Except.map _ (t.appCall c >>= _)
      rw [appCall_behind]
      cases t.appCall c with
      | error f => rfl
      | ok u => exact ih u

theorem enterTask_behind (k : ℕ) (task : Task) :
    (t.behind m).enterTask k task = (t.enterTask k task).behind m := by
  rw [enterTask_eq, enterTask_eq]
  rfl

/-- **One event only adds packets, at the end.**  The state and the fault it
may end with are the same whatever has been handed out. -/
theorem step_behind (isn : BitVec 32) (e : Event) :
    step isn (t.behind m) e = (step isn t e).map (behind m) := by
  cases e with
  | process seg => exact process_behind m t seg isn
  | call c => exact appCall_behind m t c
  | task k calls =>
      cases hk : t.ioCtx[k]? with
      | none => rw [step_task_none calls hk, step_task_none (t := t.behind m) calls hk]; rfl
      | some task =>
          rw [step_task_some calls hk, step_task_some (t := t.behind m) calls hk,
            enterTask_behind]
          cases task with
          | connectionEstablished => exact appCalls_behind m calls _
          | writeDone cb len => exact appCalls_behind m calls _
          | sendLoop => exact sendLoop_behind m _
          | readDone cb len =>
              change Tcb.appCalls _ calls >>= _ = Except.map _ (Tcb.appCalls _ calls >>= _)
              rw [appCalls_behind]
              cases (t.enterTask k (.readDone cb len)).appCalls calls with
              | error f => rfl
              | ok u => exact makeAndSendPkt_behind m u

/-- What an environment may do does not depend on them either, if its terms do
not. -/
theorem EventOk.behind {segOk : Tcb → Segment → Prop} {callOk : Tcb → AppCall → Prop}
    {m : List TcpPacket} (hseg : ∀ t seg, segOk t seg → segOk (t.behind m) seg)
    (hcall : ∀ t c, callOk t c → callOk (t.behind m) c) {t : Tcb} {e : Event}
    (h : EventOk segOk callOk t e) : EventOk segOk callOk (t.behind m) e := by
  have hcalls : ∀ (calls : List AppCall) (u : Tcb), Admitted appCall callOk u calls →
      Admitted appCall callOk (u.behind m) calls := by
    intro calls
    induction calls with
    | nil => exact fun _ _ => trivial
    | cons c calls ih =>
        rintro u ⟨hok, hrest⟩
        refine ⟨hcall u c hok, fun v hv => ?_⟩
        rw [appCall_behind] at hv
        cases hu : u.appCall c with
        | error f => rw [hu] at hv; cases hv
        | ok w =>
            rw [hu] at hv
            cases hv
            exact ih w (hrest w hu)
  cases e with
  | process seg => exact hseg t seg h
  | call c => exact hcall t c h
  | task k calls =>
      intro task hk hne
      rw [enterTask_behind]
      exact hcalls calls _ (h task hk hne)

end Behind

/-- The checksum field of an arriving segment is not looked at. -/
theorem process_chsum (isn : BitVec 32) (t : Tcb) (seg : Segment) (chsum : BitVec 16) :
    t.process isn { seg with tcph := { seg.tcph with chsum } } = t.process isn seg := rfl

end Tcb

end Mstack
