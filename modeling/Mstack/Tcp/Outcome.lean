import Mstack.Tcp.Spec

/-!
# What a segment can do

The three steps of `process` that do something, as inversion lemmas:
`AckOutcome`, `TextOutcome` and `FinOutcome` list every way out of a step, with
every guard and with the resulting block in closed form.  `process_cases` puts
them together.  No later proof unfolds `process`.

* `ackStep_cases`, `textStep_cases`, `finStep_cases` — a step that succeeds has
  one of its outcomes.
* `process_cases` — **and so does `process`.**
* `ackStep_total`, `textStep_total`, `finStep_total` — when a step succeeds.
* `process_error_cases`, `process_total` — what a segment aborts with, and when
  it does not.

### How the outcomes are used

An invariant of the block has one lemma for each of the three relations, by
cases on its constructors, and one for `process` that puts them together.  The
constructors carry the guards as hypotheses, so that a case which the invariant
excludes is closed by the guard, and the resulting block is a named function of
the old one (`ackData`, `ackSyn`, `afterPacket`, `afterDelivery`,
`afterAppend`, `afterFin`) with simp lemmas of its own.

### What is load-bearing

The outcomes say **everything** a step does.  A relation that forgot a guard
would still be true and would let later proofs down one by one; here a guard
that the source tests is a hypothesis of the constructor, also where the test
is an accident of the code.
-/

namespace Mstack

/-- The states in which the ACK step acknowledges data. -/
def TcpState.acksData : TcpState → Bool
  | .established | .finWait1 | .finWait2 | .closeWait | .closing => true
  | _ => false

/-- They are among the synchronized ones. -/
theorem TcpState.synchronized_of_acksData {s : TcpState} (h : s.acksData = true) :
    s.synchronized = true := by
  cases s <;> first | rfl | cases h

/-- The states in which the text step looks at the text. -/
def TcpState.takesText : TcpState → Bool
  | .established | .finWait1 | .finWait2 => true
  | _ => false

namespace Tcb

open EventSystem (bind_eq_ok)

/-! ## The ACK step

Eight ways out, three of which return. -/

section AckData

variable (t : Tcb) (pq : CircularBuffer Byte) (ackNo : BitVec 32)

@[simp] theorem ackData_state : (t.ackData pq ackNo).state = t.state := rfl
@[simp] theorem ackData_nextState : (t.ackData pq ackNo).nextState = t.nextState := rfl
@[simp] theorem ackData_ioCtx : (t.ackData pq ackNo).ioCtx = t.ioCtx := rfl
@[simp] theorem ackData_mngr : (t.ackData pq ackNo).mngr = t.mngr := rfl
@[simp] theorem ackData_rcv : (t.ackData pq ackNo).rcv = t.rcv := rfl
@[simp] theorem ackData_onDataReceive :
    (t.ackData pq ackNo).onDataReceive = t.onDataReceive := rfl
@[simp] theorem ackData_next :
    (t.ackData pq ackNo).send.state.seqNrNext = t.send.state.seqNrNext := rfl
@[simp] theorem ackData_unack : (t.ackData pq ackNo).send.state.seqNrUnack =
    SerialNumber.clamp ackNo t.send.state.seqNrUnack t.send.state.seqNrNext := rfl
@[simp] theorem ackData_pq : (t.ackData pq ackNo).send.pq = some (pq.eraseBegin
    (min pq.size (ackNo - t.send.state.seqNrUnack).toNat)) := rfl

end AckData

/-- What follows an acknowledgement of data writes `next_state_` and nothing
else. -/
theorem ackNextState_eq (t : Tcb) : ∃ n, t.ackNextState = t.setNextState n := by
  unfold ackNextState
  by_cases hfin : t.state = .finWait1
  · exact ⟨.finWait2, by simp [hfin, setNextState]⟩
  · by_cases hclosing : t.state = .closing
    · exact ⟨.timeWait, by simp [hclosing]⟩
    · exact ⟨t.nextState, by simp [hfin, hclosing, setNextState]⟩

/-- **The ways out of the ACK step.**  `Flow.ret` is a `return`; `Flow.next`
goes on to the text step. -/
inductive AckOutcome (t : Tcb) (seg : Segment) : Flow → Prop where
  | absent (hACK : seg.tcph.ACK = false) : AckOutcome t seg (.next t)
  | accepted (hACK : seg.tcph.ACK = true) (hstate : t.state = .synReceived)
      (hlo : t.send.state.seqNrUnack ≤ seg.tcph.ackNo)
      (hhi : seg.tcph.ackNo ≤ t.send.state.seqNrNext) :
      AckOutcome t seg (.next (t.ackSyn seg.tcph.ackNo))
  | refused (hACK : seg.tcph.ACK = true) (hstate : t.state = .synReceived)
      (hrange : ¬ (t.send.state.seqNrUnack ≤ seg.tcph.ackNo ∧
        seg.tcph.ackNo ≤ t.send.state.seqNrNext)) :
      AckOutcome t seg (.ret t)
  | data (hACK : seg.tcph.ACK = true) (hstate : t.state.acksData = true)
      (pq : CircularBuffer Byte) (hpq : t.send.pq = some pq)
      (hhi : ¬ seg.tcph.ackNo > t.send.state.seqNrNext) :
      AckOutcome t seg (.next (t.ackData pq seg.tcph.ackNo).ackNextState)
  | unsent (hACK : seg.tcph.ACK = true) (hstate : t.state.acksData = true)
      (pq pq' : CircularBuffer Byte) (hpq : t.send.pq = some pq)
      (hhi : seg.tcph.ackNo > t.send.state.seqNrNext)
      (hpq' : (t.ackData pq seg.tcph.ackNo).send.pq = some pq') :
      AckOutcome t seg (.ret ((t.ackData pq seg.tcph.ackNo).afterPacket pq'))
  | lastAck (hACK : seg.tcph.ACK = true) (hstate : t.state = .lastAck) :
      AckOutcome t seg (.ret (t.setNextState .closed))
  | timeWait (hACK : seg.tcph.ACK = true) (hstate : t.state = .timeWait)
      (pq : CircularBuffer Byte) (hpq : t.send.pq = some pq) :
      AckOutcome t seg (.next (t.afterPacket pq))
  | unsynchronized (hACK : seg.tcph.ACK = true) (hstate : t.state.synchronized = false) :
      AckOutcome t seg (.next t)

/-- The five states that acknowledge data run one piece of code. -/
theorem ackStep_of_acksData {t : Tcb} {seg : Segment} (hACK : seg.tcph.ACK = true)
    (hstate : t.state.acksData = true) :
    t.ackStep seg = t.ackEstablished seg.tcph.ackNo := by
  unfold ackStep
  rw [if_neg (by simp [hACK])]
  cases hs : t.state <;> simp_all [TcpState.acksData]

/-- **The ACK step**, inverted. -/
theorem ackStep_cases {t : Tcb} {seg : Segment} {flow : Flow}
    (h : t.ackStep seg = .ok flow) : AckOutcome t seg flow := by
  by_cases hACK : seg.tcph.ACK = true
  · by_cases hdata : t.state.acksData = true
    · rw [ackStep_of_acksData hACK hdata] at h
      obtain ⟨pq, hpq, h⟩ := bind_eq_ok.mp h
      rw [sendPq_ok] at hpq
      dsimp only at h
      by_cases hhi : seg.tcph.ackNo > t.send.state.seqNrNext
      · rw [ackData_next, if_pos hhi] at h
        obtain ⟨u, hu, h⟩ := bind_eq_ok.mp h
        obtain ⟨pq', hpq', rfl⟩ := makeAndSendPkt_ok.mp hu
        cases h
        exact .unsent hACK hdata pq pq' hpq hhi hpq'
      · rw [ackData_next, if_neg hhi] at h
        cases h
        exact .data hACK hdata pq hpq hhi
    · unfold ackStep at h
      rw [if_neg (by simp [hACK])] at h
      cases hs : t.state <;> simp only [hs, TcpState.acksData, not_true_eq_false] at hdata h
      case synReceived =>
        split at h
        · rename_i hrange
          cases h
          exact .accepted hACK hs hrange.1 hrange.2
        · rename_i hrange
          cases h
          exact .refused hACK hs hrange
      case lastAck => cases h; exact .lastAck hACK hs
      case timeWait =>
        obtain ⟨u, hu, h⟩ := bind_eq_ok.mp h
        obtain ⟨pq, hpq, rfl⟩ := makeAndSendPkt_ok.mp hu
        cases h
        exact .timeWait hACK hs pq hpq
      all_goals cases h; exact .unsynchronized hACK (by rw [hs]; rfl)
  · unfold ackStep at h
    rw [if_pos (by simpa using hACK)] at h
    cases h
    exact .absent (by simpa using hACK)

/-- The ACK step aborts only where there is no queue. -/
theorem ackStep_total {t : Tcb} {pq : CircularBuffer Byte} (seg : Segment)
    (hpq : t.send.pq = some pq) : ∃ flow, t.ackStep seg = .ok flow := by
  by_cases hACK : seg.tcph.ACK = true
  · by_cases hdata : t.state.acksData = true
    · rw [ackStep_of_acksData hACK hdata, ackEstablished, sendPq_ok.mpr hpq]
      simp only [EventSystem.ok_bind]
      split
      · obtain ⟨pq', hpq'⟩ : ∃ pq', (t.ackData pq seg.tcph.ackNo).send.pq = some pq' :=
          ⟨_, rfl⟩
        rw [makeAndSendPkt_ok.mpr ⟨pq', hpq', rfl⟩]
        exact ⟨_, rfl⟩
      · exact ⟨_, rfl⟩
    · unfold ackStep
      rw [if_neg (by simp [hACK])]
      cases hs : t.state <;> simp only [hs, TcpState.acksData, not_true_eq_false] at hdata ⊢
      case synReceived => split <;> exact ⟨_, rfl⟩
      case timeWait =>
        rw [makeAndSendPkt_ok.mpr ⟨pq, hpq, rfl⟩]
        exact ⟨_, rfl⟩
      all_goals exact ⟨_, rfl⟩
  · unfold ackStep
    rw [if_pos (by simpa using hACK)]
    exact ⟨_, rfl⟩

/-! ## The text step

Ignored, delivered to a reader, or appended to the queue. -/

/-- The text step accepts the segment: there is text, the state takes text, and
the guard holds. -/
def acceptsText (t : Tcb) (seg : Segment) : Bool :=
  decide (0 < seg.text.length) && t.state.takesText && t.textGuard seg.tcph

/-- The block after the front of `text` went to `reader` and the rest to the
queue. -/
def afterDelivery (t : Tcb) (reader : Reader) (readers : List Reader) (text : List Byte) : Tcb :=
  let n := min text.length reader.size
  { t with
    ioCtx := t.ioCtx ++ [.readDone reader.cb n]
    onDataReceive := readers
    rcv :=
      { state := { t.rcv.state with next := t.rcv.state.next + BitVec.ofNat 32 n }
        pq := (t.rcv.pq.resize (text.length - n) 0).overwrite 0 (text.drop n) }
    trace := { t.trace with
      copied := t.trace.copied ++ [(reader.cb, text.take n)]
      acceptedText := t.trace.acceptedText ++ [text] } }

/-- The block after `text` was appended to the queue. -/
def afterAppend (t : Tcb) (text : List Byte) : Tcb :=
  { t with
    rcv := { t.rcv with
      pq := (t.rcv.pq.resize (t.rcv.pq.size + text.length) 0).overwrite t.rcv.pq.size text }
    trace := { t.trace with acceptedText := t.trace.acceptedText ++ [text] } }

/-- What a delivery leaves in the queue is the rest of the segment. -/
theorem afterDelivery_data {t : Tcb} (reader : Reader) (readers : List Reader) (text : List Byte)
    (hempty : t.rcv.pq.data = []) :
    (t.afterDelivery reader readers text).rcv.pq.data =
      text.drop (min text.length reader.size) := by
  have h := CircularBuffer.overwrite_resize_of_empty hempty
    (text.drop (min text.length reader.size)) 0
  rwa [List.length_drop] at h

/-- What an append leaves in the queue. -/
@[simp] theorem afterAppend_data (t : Tcb) (text : List Byte) :
    (t.afterAppend text).rcv.pq.data = t.rcv.pq.data ++ text :=
  CircularBuffer.overwrite_resize _ _ _

/-- The ways out of the text step. -/
inductive TextOutcome (t : Tcb) (seg : Segment) : Tcb → Prop where
  | ignored (hno : t.acceptsText seg = false) : TextOutcome t seg t
  | delivered (hyes : t.acceptsText seg = true) (reader : Reader) (readers : List Reader)
      (hreaders : t.onDataReceive = reader :: readers) (hempty : t.rcv.pq.data = []) :
      TextOutcome t seg (t.afterDelivery reader readers seg.text)
  | appended (hyes : t.acceptsText seg = true) (hreaders : t.onDataReceive = [])
      (hfit : t.rcv.pq.size + seg.text.length ≤ t.rcv.pq.capacity) :
      TextOutcome t seg (t.afterAppend seg.text)

/-- The text step in two parts: whether it accepts the text, and what it does
with it. -/
theorem textStep_eq (t : Tcb) (seg : Segment) :
    t.textStep seg = if t.acceptsText seg then t.acceptText seg.text else .ok t := by
  unfold textStep acceptsText
  by_cases hlen : 0 < seg.text.length
  · rw [if_pos hlen]
    cases hs : t.state <;> simp [TcpState.takesText, hlen]
  · simp [hlen]

/-- **The text step**, inverted. -/
theorem textStep_cases {t t' : Tcb} {seg : Segment} (h : t.textStep seg = .ok t') :
    TextOutcome t seg t' := by
  rw [textStep_eq] at h
  split at h
  · rename_i hyes
    unfold acceptText at h
    dsimp only at h
    split at h
    · rename_i reader readers hreaders
      unfold deliverToReader at h
      split at h
      · cases h
      · rename_i hempty
        cases h
        exact .delivered hyes reader readers hreaders (by simpa using hempty)
    · rename_i hreaders
      unfold appendToQueue at h
      split at h
      · cases h
      · rename_i hfit
        cases h
        exact .appended hyes hreaders (by simpa using hfit)
  · rename_i hno
    cases h
    exact .ignored (by simpa using hno)

/-- The two assertions of the text step, and when they hold. -/
theorem textStep_total (t : Tcb) (seg : Segment)
    (hreader : t.acceptsText seg = true → t.onDataReceive ≠ [] → t.rcv.pq.data = [])
    (hfit : t.acceptsText seg = true → t.onDataReceive = [] →
      t.rcv.pq.size + seg.text.length ≤ t.rcv.pq.capacity) :
    ∃ t', t.textStep seg = .ok t' := by
  rw [textStep_eq]
  split
  · rename_i hyes
    unfold acceptText
    cases hreaders : t.onDataReceive with
    | nil =>
        have hle := hfit hyes hreaders
        exact ⟨_, by simp only [appendToQueue]; rw [if_neg (by omega)]⟩
    | cons reader readers =>
        have hempty := hreader hyes (by simp [hreaders])
        exact ⟨_, by
          simp only [deliverToReader]; rw [if_neg (by simp [hempty])]⟩
  · exact ⟨t, rfl⟩

/-! ## The FIN step

Ignored, or one of two ways to close. -/

/-- The block after a FIN was acknowledged out of SYN-RECEIVED or ESTABLISHED.
The two cases it falls through to overwrite `next_state_`. -/
def afterFin (t : Tcb) (pq : CircularBuffer Byte) : Tcb :=
  (((t.advanceRcvNext 1).setNextState .closeWait).afterPacket pq).setNextState .timeWait

/-- Falling through to the FIN-WAIT-2 case makes the choice before it
irrelevant. -/
theorem finWait1Case_eq (t : Tcb) : t.finWait1Case = t.setNextState .timeWait := by
  unfold finWait1Case finWait2Case
  split <;> rfl

/-- The ways out of the FIN step. -/
inductive FinOutcome (t : Tcb) (seg : Segment) : Tcb → Prop where
  | ignored (hno : seg.tcph.FIN = false ∨
      (t.state ≠ .synReceived ∧ t.state.takesText = false)) : FinOutcome t seg t
  | closed (hFIN : seg.tcph.FIN = true)
      (hstate : t.state = .synReceived ∨ t.state = .established)
      (pq : CircularBuffer Byte) (hpq : t.send.pq = some pq) :
      FinOutcome t seg (t.afterFin pq)
  | finWait (hFIN : seg.tcph.FIN = true) (hstate : t.state = .finWait1 ∨ t.state = .finWait2) :
      FinOutcome t seg (t.setNextState .timeWait)

/-- The first case of the FIN step sends a packet. -/
theorem establishedCase_ok {t t' : Tcb} :
    t.establishedCase = .ok t' ↔ ∃ pq, t.send.pq = some pq ∧ t' = t.afterFin pq := by
  unfold establishedCase
  rw [bind_eq_ok]
  constructor
  · rintro ⟨u, hu, h⟩
    obtain ⟨pq, hpq, rfl⟩ := makeAndSendPkt_ok.mp hu
    refine ⟨pq, hpq, ?_⟩
    rw [finWait1Case_eq] at h
    cases h
    rfl
  · rintro ⟨pq, hpq, rfl⟩
    exact ⟨_, makeAndSendPkt_ok.mpr ⟨pq, hpq, rfl⟩, by rw [finWait1Case_eq]; rfl⟩

/-- **The FIN step**, inverted. -/
theorem finStep_cases {t t' : Tcb} {seg : Segment} (h : t.finStep seg = .ok t') :
    FinOutcome t seg t' := by
  unfold finStep at h
  by_cases hFIN : seg.tcph.FIN = true
  · rw [if_pos hFIN] at h
    cases hs : t.state <;> simp only [hs] at h
    case synReceived =>
      obtain ⟨pq, hpq, rfl⟩ := establishedCase_ok.mp h
      exact .closed hFIN (.inl hs) pq hpq
    case established =>
      obtain ⟨pq, hpq, rfl⟩ := establishedCase_ok.mp h
      exact .closed hFIN (.inr hs) pq hpq
    case finWait1 =>
      rw [finWait1Case_eq] at h
      cases h
      exact .finWait hFIN (.inl hs)
    case finWait2 =>
      cases h
      exact .finWait hFIN (.inr hs)
    all_goals cases h; exact .ignored (.inr ⟨by simp [hs], by simp [hs, TcpState.takesText]⟩)
  · rw [if_neg hFIN] at h
    cases h
    exact .ignored (.inl (by simpa using hFIN))

/-- The FIN step aborts only where there is no queue. -/
theorem finStep_total {t : Tcb} {pq : CircularBuffer Byte} (seg : Segment)
    (hpq : t.send.pq = some pq) : ∃ t', t.finStep seg = .ok t' := by
  have hclose : t.establishedCase = .ok (t.afterFin pq) := establishedCase_ok.mpr ⟨pq, hpq, rfl⟩
  unfold finStep
  split
  · cases t.state <;> first | exact ⟨_, hclose⟩ | exact ⟨_, rfl⟩
  · exact ⟨t, rfl⟩

/-! ## The procedure

The handlers of the states without a peer, and the three steps one after the
other. -/

/-- The ways out of `process`. -/
inductive ProcessOutcome (isn : BitVec 32) (t : Tcb) (seg : Segment) : Tcb → Prop where
  | unchanged (hno : t.reachesAckStep seg = false) : ProcessOutcome isn t seg t
  | passiveOpen (hstate : t.state = .listen) (hRST : seg.tcph.RST = false)
      (hACK : seg.tcph.ACK = false) (hSYN : seg.tcph.SYN = true) (opts : List TcpOption)
      (hopts : decodeOptions seg.opts = .ok opts) :
      ProcessOutcome isn t seg ((t.acceptSyn isn seg opts).afterPacket
        (CircularBuffer.ofCapacity seg.tcph.window.toNat))
  | activeOpen (hstate : t.state = .synSent) (hSYN : seg.tcph.SYN = true)
      (hACK : seg.tcph.ACK = true) (hlo : ¬ seg.tcph.ackNo < t.send.state.seqNrUnack)
      (hhi : ¬ seg.tcph.ackNo > t.send.state.seqNrNext) (opts : List TcpOption)
      (hopts : decodeOptions seg.opts = .ok opts) :
      ProcessOutcome isn t seg ((t.acceptSynAck seg opts).afterPacket
        (CircularBuffer.ofCapacity seg.tcph.window.toNat)).listenFinish
  | returned {t' : Tcb} (hsync : t.state.synchronized = true)
      (hreach : t.reachesAckStep seg = true) (hack : AckOutcome t seg (.ret t')) :
      ProcessOutcome isn t seg t'
  | continued {t₁ t₂ t' : Tcb} (hsync : t.state.synchronized = true)
      (hreach : t.reachesAckStep seg = true) (hack : AckOutcome t seg (.next t₁))
      (htext : TextOutcome t₁ seg t₂) (hfin : FinOutcome t₂ seg t') :
      ProcessOutcome isn t seg t'

/-- Segments reach the ACK step in synchronized states only. -/
theorem reachesAckStep_synchronized {t : Tcb} {seg : Segment}
    (h : t.reachesAckStep seg = true) : t.state.synchronized = true := by
  by_contra hsync
  simp [reachesAckStep, tcpCheckSegment, hsync] at h

/-- In a synchronized state `process` runs the numbered steps. -/
theorem process_of_synchronized {isn : BitVec 32} {t : Tcb} {seg : Segment}
    (hsync : t.state.synchronized = true) :
    t.process isn seg = if t.reachesAckStep seg then t.acceptSegment seg else .ok t := by
  unfold process
  cases hs : t.state <;> simp_all [TcpState.synchronized]

/-- **What `process` can do to a block.**  One of five: nothing, a passive
open, an active open, the ACK step returns, or all three steps run. -/
theorem process_cases {isn : BitVec 32} {t t' : Tcb} {seg : Segment}
    (h : t.process isn seg = .ok t') : ProcessOutcome isn t seg t' := by
  by_cases hsync : t.state.synchronized = true
  · rw [process_of_synchronized hsync] at h
    split at h
    · rename_i hreach
      obtain ⟨flow, hflow, h⟩ := bind_eq_ok.mp h
      have hack := ackStep_cases hflow
      cases flow with
      | ret u => cases h; exact .returned hsync hreach hack
      | next u =>
          obtain ⟨v, hv, h⟩ := bind_eq_ok.mp h
          exact .continued hsync hreach hack (textStep_cases hv) (finStep_cases h)
    · rename_i hno
      cases h
      exact .unchanged (by simpa using hno)
  · have hno : t.reachesAckStep seg = false := by
      by_contra hreach
      exact hsync (reachesAckStep_synchronized (by simpa using hreach))
    unfold process at h
    -- Four states are not synchronized, and two of them drop every segment.
    cases hs : t.state <;> simp only [hs, TcpState.synchronized, not_true_eq_false] at hsync h
    case closed => cases h; exact .unchanged hno
    case connecting =>
      rw [hno] at h
      cases h; exact .unchanged hno
    case listen =>
      unfold tcpHandleListenState at h
      split_ifs at h with hRST hACK hSYN
      · cases h; exact .unchanged hno
      · cases h; exact .unchanged hno
      · obtain ⟨opts, hopts, h⟩ := bind_eq_ok.mp h
        obtain ⟨pq, hpq, rfl⟩ := makeAndSendPkt_ok.mp h
        cases hpq
        exact .passiveOpen hs (by simpa using hRST) (by simpa using hACK) hSYN opts hopts
      · cases h; exact .unchanged hno
    case synSent =>
      unfold tcpHandleSynSent at h
      split_ifs at h with hflags hrange
      · obtain ⟨opts, hopts, h⟩ := bind_eq_ok.mp h
        obtain ⟨u, hu, h⟩ := bind_eq_ok.mp h
        obtain ⟨pq, hpq, rfl⟩ := makeAndSendPkt_ok.mp hu
        cases hpq
        cases h
        rw [Bool.and_eq_true] at hflags
        exact .activeOpen hs hflags.1 hflags.2 hrange.1 hrange.2 opts hopts
      · cases h; exact .unchanged hno
      · cases h; exact .unchanged hno

/-! ## When a segment aborts

With a send queue in place, two assertions of the text step are left, and those
of the option decoder. -/

/-- The ACK step touches neither the receive side nor the waiting readers. -/
theorem AckOutcome.frame {t : Tcb} {seg : Segment} {flow : Flow} (h : AckOutcome t seg flow) :
    flow.block.rcv = t.rcv ∧ flow.block.onDataReceive = t.onDataReceive ∧
      flow.block.trace.copied = t.trace.copied ∧
      flow.block.trace.acceptedText = t.trace.acceptedText := by
  cases h with
  | data hACK hstate pq hpq hhi =>
      obtain ⟨n, hn⟩ := (t.ackData pq seg.tcph.ackNo).ackNextState_eq
      rw [hn]
      exact ⟨rfl, rfl, rfl, rfl⟩
  | _ => exact ⟨rfl, rfl, rfl, rfl⟩

/-- The ACK step keeps the queue. -/
theorem AckOutcome.keeps_queue {t : Tcb} {seg : Segment} {flow : Flow}
    (h : AckOutcome t seg flow) (hpq : ∃ pq, t.send.pq = some pq) :
    ∃ pq, flow.block.send.pq = some pq := by
  cases h with
  | data hACK hstate pq hpq hhi =>
      obtain ⟨n, hn⟩ := (t.ackData pq seg.tcph.ackNo).ackNextState_eq
      rw [hn]
      exact ⟨_, rfl⟩
  | unsent hACK hstate pq pq' hpq hhi hpq' => exact ⟨pq', hpq'⟩
  | _ => exact hpq

/-- The text step leaves the send side alone. -/
theorem TextOutcome.send_eq {t t' : Tcb} {seg : Segment} (h : TextOutcome t seg t') :
    t'.send = t.send := by
  cases h <;> rfl

/-- And the state. -/
theorem TextOutcome.state_eq {t t' : Tcb} {seg : Segment} (h : TextOutcome t seg t') :
    t'.state = t.state := by
  cases h <;> rfl

/-- And sends nothing. -/
theorem TextOutcome.mngr_eq {t t' : Tcb} {seg : Segment} (h : TextOutcome t seg t') :
    t'.mngr = t.mngr := by
  cases h <;> rfl

/-- **The assertions of the text step.**  Which one fails depends on whether a
reader waits. -/
theorem textStep_error_iff {t : Tcb} {seg : Segment} {f : Fault} :
    t.textStep seg = .error f ↔ t.acceptsText seg = true ∧
      ((f = .readerWhileBuffered ∧ t.onDataReceive ≠ [] ∧ t.rcv.pq.data ≠ []) ∨
        (f = .receiveQueueCapacity ∧ t.onDataReceive = [] ∧
          t.rcv.pq.capacity < t.rcv.pq.size + seg.text.length)) := by
  rw [textStep_eq]
  cases hyes : t.acceptsText seg with
  | false => simp
  | true =>
      simp only [if_true, true_and]
      unfold acceptText
      cases hreaders : t.onDataReceive with
      | nil =>
          by_cases hfit : t.rcv.pq.capacity < t.rcv.pq.size + seg.text.length
          · simpa [appendToQueue, hfit] using eq_comm
          · simp [appendToQueue, hfit]
      | cons reader readers =>
          by_cases hempty : t.rcv.pq.data = []
          · simp [deliverToReader, hempty]
          · simpa [deliverToReader, hempty] using eq_comm

/-- Before the handshake is over a segment aborts in the option decoder at
most. -/
theorem process_error_of_not_synchronized {isn : BitVec 32} {t : Tcb} {seg : Segment} {f : Fault}
    (hsync : t.state.synchronized = false) (h : t.process isn seg = .error f) :
    decodeOptions seg.opts = .error f := by
  have hno : t.reachesAckStep seg = false := by
    by_contra hreach
    rw [reachesAckStep_synchronized (by simpa using hreach)] at hsync
    cases hsync
  unfold process at h
  cases hs : t.state <;> simp only [hs, TcpState.synchronized, Bool.true_eq_false] at hsync h
  case closed => cases h
  case connecting => rw [hno] at h; cases h
  case listen =>
    unfold tcpHandleListenState at h
    split_ifs at h
    rcases EventSystem.bind_eq_error.mp h with h | ⟨opts, -, h⟩
    · exact h
    · cases (makeAndSendPkt_error.mp h).1
  case synSent =>
    unfold tcpHandleSynSent at h
    split_ifs at h
    rcases EventSystem.bind_eq_error.mp h with h | ⟨opts, -, h⟩
    · exact h
    · rcases EventSystem.bind_eq_error.mp h with h | ⟨u, -, h⟩
      · cases (makeAndSendPkt_error.mp h).1
      · cases h

/-- **What an arriving segment aborts with.**  Where the send queue is there,
the assertions of the option decoder and of the text step are all that is
left. -/
theorem process_error_cases {isn : BitVec 32} {t : Tcb} {seg : Segment} {f : Fault}
    (hpq : t.state.synchronized = true → ∃ pq, t.send.pq = some pq)
    (h : t.process isn seg = .error f) :
    f = .optionLength ∨ f = .optionOutOfRange ∨ f = .readerWhileBuffered ∨
      f = .receiveQueueCapacity := by
  by_cases hsync : t.state.synchronized = true
  · rw [process_of_synchronized hsync] at h
    obtain ⟨pq, hpq⟩ := hpq hsync
    obtain ⟨flow, hflow⟩ := ackStep_total seg hpq
    split at h
    · rw [acceptSegment, hflow, EventSystem.ok_bind] at h
      cases flow with
      | ret u => cases h
      | next u =>
          rcases EventSystem.bind_eq_error.mp h with h | ⟨v, hv, h⟩
          · rcases (textStep_error_iff.mp h).2 with ⟨hf, -⟩ | ⟨hf, -⟩
            · exact .inr (.inr (.inl hf))
            · exact .inr (.inr (.inr hf))
          · obtain ⟨pq', hpq'⟩ := (ackStep_cases hflow).keeps_queue ⟨pq, hpq⟩
            have hpqv : v.send.pq = some pq' := by rw [(textStep_cases hv).send_eq]; exact hpq'
            obtain ⟨w, hw⟩ := finStep_total seg hpqv
            rw [hw] at h
            cases h
    · cases h
  · have hdecode := process_error_of_not_synchronized (by simpa using hsync) h
    rcases decodeOptions_error hdecode with hf | hf
    · exact .inl hf
    · exact .inr (.inl hf)

/-- In particular a segment never looks for a queue that is not there. -/
theorem process_error {isn : BitVec 32} {t : Tcb} {seg : Segment} {f : Fault}
    (hpq : t.state.synchronized = true → ∃ pq, t.send.pq = some pq)
    (h : t.process isn seg = .error f) : f ≠ .nullSendQueue := by
  rcases process_error_cases hpq h with rfl | rfl | rfl | rfl <;> simp

/-- **When an arriving segment does not abort**, in a state past the
handshake. -/
theorem process_total {isn : BitVec 32} {t : Tcb} {seg : Segment} {pq : CircularBuffer Byte}
    (hsync : t.state.synchronized = true) (hpq : t.send.pq = some pq)
    (hreader : t.onDataReceive ≠ [] → t.rcv.pq.data = [])
    (hfit : ∀ u, t.reachesAckStep seg = true → AckOutcome t seg (.next u) →
      u.acceptsText seg = true → t.onDataReceive = [] →
      t.rcv.pq.size + seg.text.length ≤ t.rcv.pq.capacity) :
    ∃ t', t.process isn seg = .ok t' := by
  rw [process_of_synchronized hsync]
  obtain ⟨flow, hflow⟩ := ackStep_total seg hpq
  split
  · rename_i hreach
    rw [acceptSegment, hflow, EventSystem.ok_bind]
    cases flow with
    | ret u => exact ⟨u, rfl⟩
    | next u =>
        have hack := ackStep_cases hflow
        obtain ⟨hrcv, hreaders, -⟩ := hack.frame
        change u.rcv = t.rcv at hrcv
        change u.onDataReceive = t.onDataReceive at hreaders
        obtain ⟨v, hv⟩ := textStep_total u seg
          (fun _ h => by rw [hrcv]; exact hreader (hreaders ▸ h))
          (fun hyes h => by rw [hrcv]; exact hfit u hreach hack hyes (hreaders ▸ h))
        obtain ⟨pq', hpq'⟩ := hack.keeps_queue ⟨pq, hpq⟩
        have hpqv : v.send.pq = some pq' := by rw [(textStep_cases hv).send_eq]; exact hpq'
        obtain ⟨w, hw⟩ := finStep_total seg hpqv
        exact ⟨w, by simp only [hv, EventSystem.ok_bind, hw]⟩
  · exact ⟨t, rfl⟩

end Tcb

end Mstack
