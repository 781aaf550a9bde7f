import Mstack.Tcp.Induction

/-!
# The pair of states

The state changes in two phases: a step of `process` writes `next_state_`, and
`state_` follows when the next packet is built, whatever that packet is for.
So the object to look at is the *pair*.

In every reachable state the first component determines the second,
`TcpState.pending`, and it determines whether there is a send queue.  Of the
twelve enumerators six are ever entered: LISTEN, SYN-SENT, SYN-RECEIVED,
ESTABLISHED, CLOSE-WAIT and TIME-WAIT.  There is no call that closes a
connection from this side, so the other states of the diagram have no way in.

### Main results

* `Controlled` — the invariant; `step_controlled` — every event keeps it.
* `process_control` — what an arriving segment does to the state.
  `SegmentMove` has one case for each way out of `process`, and the result
  about the diagram (`Tcp.Diagram`) splits on it and not on the function.
* `Open` — a block past the handshake.  Most results about data start here,
  because such a block handles every segment in the numbered steps
  (`Open.process_cases`).

### What is load-bearing

The two components differ in SYN-SENT and in CLOSE-WAIT only.  In SYN-SENT
ESTABLISHED is pending, but without a send queue no packet is built, and the
handler of the SYN-ACK assigns both.  In CLOSE-WAIT TIME-WAIT is pending, and
**any packet** completes it.  `Tcp.Diagram` is about that.
-/

namespace Mstack

/-- The two states in which the peer's window is unknown and there is no send
queue. -/
def TcpState.opening : TcpState → Bool
  | .listen | .synSent => true
  | _ => false

/-- The value of `next_state_` between two events, as a function of `state_`;
`none` for the states that no connection enters.  In CLOSE-WAIT it is
TIME-WAIT, in SYN-SENT it is ESTABLISHED, elsewhere it is the state itself. -/
def TcpState.pending : TcpState → Option TcpState
  | .listen => some .listen
  | .synSent => some .established
  | .synReceived => some .synReceived
  | .established => some .established
  | .closeWait => some .timeWait
  | .timeWait => some .timeWait
  | .closed | .connecting | .finWait1 | .finWait2 | .closing | .lastAck => none

theorem TcpState.not_synchronized {s : TcpState} (h : s.opening = true) :
    s.synchronized = false := by
  cases s <;> first | rfl | cases h

namespace Tcb

open EventSystem (bind_eq_ok Admitted)

/-- **A block as `tcb_manager` makes it**: in LISTEN, or by `start_connecting`
right after construction.  `isn` is the number the active side draws, and
`junkSend` and `junkRcv` are what the constructor leaves in the members it does
not initialise. -/
inductive Opened (isn : BitVec 32) : Tcb → Prop where
  | passive (remoteEp localEp : Endpoint) (junkSend : SendState) (junkRcv : ReceiveState) :
      Opened isn (create remoteEp localEp .listen .listen junkSend junkRcv)
  | active (remoteEp localEp : Endpoint) (junkSend : SendState) (junkRcv : ReceiveState)
      {t : Tcb}
      (h : (create remoteEp localEp .connecting .connecting junkSend junkRcv).startConnecting
        isn = .ok t) :
      Opened isn t

/-- A block in LISTEN whose indeterminate members are zero. -/
def listening : Tcb := create default default .listen .listen default default

/-- A block in ESTABLISHED with nothing sent or received: its ISN, the peer's
ISN, and the MSS and window the peer has announced. -/
def established (isn irs : BitVec 32) (mss window : BitVec 16) : Tcb :=
  let t := create default default .established .established
    { seqNrUnack := isn + 1, seqNrNext := isn + 1, window := window, mss := mss }
    { next := irs + 1, window := 0, mss := 0 }
  { t with send := { t.send with pq := some (CircularBuffer.ofCapacity window.toNat) } }

theorem opened_listening (isn : BitVec 32) : Opened isn listening := .passive _ _ _ _

/-- **The invariant of the two phases**: the state is one of the six, it
determines the pending one, and the queue exists outside of LISTEN and
SYN-SENT. -/
structure Controlled (t : Tcb) : Prop where
  control : t.state.pending = some t.nextState
  queue : t.send.pq = none ↔ t.state.opening = true

/-- `Controlled` reads three members. -/
theorem Controlled.congr {t u : Tcb} (h : Controlled t) (hstate : u.state = t.state)
    (hnext : u.nextState = t.nextState) (hpq : u.send.pq = none ↔ t.send.pq = none) :
    Controlled u := by
  refine ⟨?_, ?_⟩
  · rw [hstate, hnext]; exact h.control
  · rw [hpq, hstate]; exact h.queue

theorem Controlled.nextState_eq {t : Tcb} {s n : TcpState} (h : Controlled t)
    (hstate : t.state = s) (hpending : s.pending = some n) : t.nextState = n := by
  have hcontrol := h.control
  rw [hstate, hpending] at hcontrol
  exact (Option.some.inj hcontrol).symm

theorem Controlled.pq_of_state {t : Tcb} (h : Controlled t) (hstate : t.state.opening = false) :
    ∃ pq, t.send.pq = some pq := by
  cases hpq : t.send.pq with
  | none => rw [h.queue.mp hpq] at hstate; cases hstate
  | some pq => exact ⟨pq, rfl⟩

theorem Controlled.state_of_pq {t : Tcb} {pq : CircularBuffer Byte} (h : Controlled t)
    (hpq : t.send.pq = some pq) : t.state.opening = false := by
  by_contra hopen
  have hnone := h.queue.mpr (by simpa using hopen)
  rw [hpq] at hnone
  cases hnone

theorem Controlled.pq_of_synchronized {t : Tcb} (h : Controlled t)
    (hsync : t.state.synchronized = true) : ∃ pq, t.send.pq = some pq := by
  refine h.pq_of_state ?_
  by_contra hopening
  rw [TcpState.not_synchronized (by simpa using hopening)] at hsync
  cases hsync

theorem Opened.controlled {isn : BitVec 32} {t : Tcb} (h : Opened isn t) : Controlled t := by
  cases h with
  | passive remoteEp localEp junkSend junkRcv =>
      exact ⟨rfl, by simp [create, TcpState.opening]⟩
  | active remoteEp localEp junkSend junkRcv h =>
      rw [startConnecting_eq] at h
      cases h
      exact ⟨rfl, by simp [create, afterConnect, TcpState.opening]⟩

/-! ## Closure under events

One lemma for each step of `process`, then calls, handlers and packets. -/

/-- A packet completes a pending change of state. -/
theorem Controlled.afterPacket {t : Tcb} {pq : CircularBuffer Byte} (h : Controlled t)
    (hpq : t.send.pq = some pq) : Controlled (t.afterPacket pq) := by
  have hopen := h.state_of_pq hpq
  have hcontrol := h.control
  refine ⟨?_, ?_⟩
  · rw [afterPacket_state, afterPacket_nextState]
    cases hs : t.state <;> simp_all [TcpState.pending, TcpState.opening] <;>
      rw [← hcontrol]
  · rw [afterPacket_pq, hpq, afterPacket_state]
    cases hs : t.state <;> simp_all [TcpState.pending, TcpState.opening] <;>
      rw [← hcontrol]

/-- The two states a connection enters in which the ACK step acknowledges
data. -/
theorem Controlled.acksData_cases {t : Tcb} (h : Controlled t)
    (hacks : t.state.acksData = true) : t.state = .established ∨ t.state = .closeWait := by
  have hcontrol := h.control
  cases hs : t.state <;> simp_all [TcpState.pending, TcpState.acksData]

theorem Controlled.ackData {t : Tcb} {pq : CircularBuffer Byte} {ackNo : BitVec 32}
    (h : Controlled t) (hpq : t.send.pq = some pq) : Controlled (t.ackData pq ackNo) :=
  h.congr rfl rfl (by simp [hpq])

/-- Outside of FIN-WAIT-1 and CLOSING an acknowledgement of data leaves
`next_state_` alone. -/
theorem ackNextState_of_acksData {t : Tcb} (h : Controlled t)
    (hacks : t.state.acksData = true) : t.ackNextState = t := by
  unfold ackNextState
  rcases h.acksData_cases hacks with hs | hs <;> simp [hs]

/-- **The ACK step, as far as the state goes.**  It leaves the state alone, or
it takes SYN-RECEIVED to ESTABLISHED, or, where it answers a number not yet
sent, it completes a pending change. -/
theorem AckOutcome.control {t : Tcb} {seg : Segment} {flow : Flow} (h : AckOutcome t seg flow)
    (hc : Controlled t) :
    (∃ u, flow = .next u ∧ Controlled u ∧ u.state = t.state ∧
      ¬ (t.state.acksData = true ∧ seg.tcph.ACK = true ∧
        seg.tcph.ackNo > t.send.state.seqNrNext)) ∨
    (t.state = .synReceived ∧ flow = .next (t.ackSyn seg.tcph.ackNo)) ∨
    (t.state = .synReceived ∧ flow = .ret t) ∨
    (t.state.acksData = true ∧ seg.tcph.ACK = true ∧
      seg.tcph.ackNo > t.send.state.seqNrNext ∧
      ∃ u, flow = .ret u ∧ Controlled u ∧ u.state = t.nextState) := by
  cases h with
  | absent hACK => exact .inl ⟨t, rfl, hc, rfl, by simp [hACK]⟩
  | accepted hACK hstate hlo hhi => exact .inr (.inl ⟨hstate, rfl⟩)
  | refused hACK hstate hrange => exact .inr (.inr (.inl ⟨hstate, rfl⟩))
  | data hACK hstate pq hpq hhi =>
      rw [ackNextState_of_acksData (hc.ackData hpq) hstate]
      exact .inl ⟨_, rfl, hc.ackData hpq, rfl, fun hsends => hhi hsends.2.2⟩
  | unsent hACK hstate pq pq' hpq hhi hpq' =>
      exact .inr (.inr (.inr ⟨hstate, hACK, hhi, _, rfl, (hc.ackData hpq).afterPacket hpq', rfl⟩))
  | lastAck hACK hstate =>
      have hcontrol := hc.control
      rw [hstate] at hcontrol
      cases hcontrol
  | timeWait hACK hstate pq hpq =>
      refine .inl ⟨_, rfl, hc.afterPacket hpq, ?_, ?_⟩
      · rw [afterPacket_state, hc.nextState_eq hstate rfl, hstate]
      · simp [hstate, TcpState.acksData]
  | unsynchronized hACK hstate =>
      refine .inl ⟨t, rfl, hc, rfl, ?_⟩
      rintro ⟨hacks, -⟩
      rcases hc.acksData_cases hacks with hs | hs <;> rw [hs] at hstate <;> cases hstate

theorem TextOutcome.control {t t' : Tcb} {seg : Segment} (h : TextOutcome t seg t')
    (hc : Controlled t) : Controlled t' ∧ t'.state = t.state := by
  cases h with
  | ignored hno => exact ⟨hc, rfl⟩
  | delivered hyes reader readers hreaders hempty => exact ⟨hc.congr rfl rfl Iff.rfl, rfl⟩
  | appended hyes hreaders hfit => exact ⟨hc.congr rfl rfl Iff.rfl, rfl⟩

theorem FinOutcome.control {t t' : Tcb} {seg : Segment} (h : FinOutcome t seg t')
    (hc : Controlled t) :
    Controlled t' ∧ (t'.state = t.state ∨
      ((t.state = .synReceived ∨ t.state = .established) ∧ t'.state = .closeWait)) := by
  cases h with
  | ignored hno => exact ⟨hc, .inl rfl⟩
  | closed hFIN hstate pq hpq =>
      refine ⟨⟨rfl, ?_⟩, .inr ⟨hstate, rfl⟩⟩
      show t.send.pq = none ↔ _
      rw [hpq]
      simp [afterFin, setNextState, TcpState.opening]
  | finWait hFIN hstate =>
      have hcontrol := hc.control
      rcases hstate with hs | hs <;> rw [hs] at hcontrol <;> cases hcontrol

theorem controlled_ackSyn {t : Tcb} {ackNo : BitVec 32} (h : Controlled t)
    (hstate : t.state = .synReceived) : Controlled (t.ackSyn ackNo) := by
  refine ⟨rfl, ?_⟩
  show t.send.pq = none ↔ _
  rw [h.queue, hstate]
  rfl

/-- The segment is answered with a packet although the user has nothing to do
with it: it passes the first four steps and acknowledges something not yet
sent. -/
def AcksUnsent (t : Tcb) (seg : Segment) : Prop :=
  t.reachesAckStep seg = true ∧ seg.tcph.ACK = true ∧ seg.tcph.ackNo > t.send.state.seqNrNext

/-- **What an arriving segment does to the state.**  Six ways; `stays` and
`pending` tell the segments apart that are answered with a packet in
CLOSE-WAIT. -/
inductive SegmentMove (t : Tcb) (seg : Segment) (t' : Tcb) : Prop where
  | stays (hstate : t'.state = t.state)
      (hquiet : t.state = .closeWait → ¬ AcksUnsent t seg)
  | passiveOpen (hstate : t.state = .listen) (hstate' : t'.state = .synReceived)
  | activeOpen (hstate : t.state = .synSent) (hstate' : t'.state = .established)
  | accepted (hstate : t.state = .synReceived) (hstate' : t'.state = .established)
  | closed (hstate : t.state = .synReceived ∨ t.state = .established)
      (hstate' : t'.state = .closeWait)
  | pending (hstate : t.state = .closeWait) (hsends : AcksUnsent t seg)
      (hstate' : t'.state = .timeWait)

/-- **One segment keeps the pair of states**, and moves it in one of the six
ways. -/
theorem process_control {isn : BitVec 32} {t t' : Tcb} {seg : Segment} (hc : Controlled t)
    (h : t.process isn seg = .ok t') : Controlled t' ∧ SegmentMove t seg t' := by
  cases process_cases h with
  | unchanged hno =>
      exact ⟨hc, .stays rfl fun _ hsends => by simp [hsends.1] at hno⟩
  | passiveOpen hstate hRST hACK hSYN opts hopts =>
      exact ⟨⟨rfl, by simp [acceptSyn, TcpState.opening]⟩, .passiveOpen hstate rfl⟩
  | activeOpen hstate hSYN hACK hlo hhi opts hopts =>
      exact ⟨⟨rfl, by simp [acceptSynAck, listenFinish, post, setState, setNextState,
        TcpState.opening]⟩, .activeOpen hstate rfl⟩
  | returned hsync hreach hack =>
      rcases hack.control hc with ⟨u, hflow, -⟩ | ⟨-, hflow⟩ | ⟨hs, hflow⟩ |
        ⟨hacks, hACK, hhi, u, hflow, hu, hustate⟩
      · cases hflow
      · cases hflow
      · cases hflow
        exact ⟨hc, .stays rfl fun hs' => by rw [hs] at hs'; cases hs'⟩
      · cases hflow
        refine ⟨hu, ?_⟩
        rcases hc.acksData_cases hacks with hs | hs
        · -- In ESTABLISHED no change is pending: `next_state_` is the state itself.
          rw [hc.nextState_eq hs rfl] at hustate
          exact .stays (by rw [hustate, hs]) fun hs' => by rw [hs] at hs'; cases hs'
        · rw [hc.nextState_eq hs rfl] at hustate
          exact .pending hs ⟨hreach, hACK, hhi⟩ hustate
  | continued hsync hreach hack htext hfin =>
      rcases hack.control hc with ⟨u, hflow, hu, hustate, hquiet⟩ | ⟨hs, hflow⟩ | ⟨-, hflow⟩ |
        ⟨-, -, -, u, hflow, -⟩
      · cases hflow
        obtain ⟨hv, hvstate⟩ := htext.control hu
        obtain ⟨ht', hmove⟩ := hfin.control hv
        rw [hvstate, hustate] at hmove
        refine ⟨ht', ?_⟩
        rcases hmove with hsame | ⟨hfrom, hclose⟩
        · refine .stays hsame fun hs hsends => hquiet ⟨by rw [hs]; rfl, hsends.2⟩
        · exact .closed hfrom hclose
      · cases hflow
        -- The ACK of a SYN-ACK opens the block, and may carry a FIN.
        obtain ⟨hv, hvstate⟩ := htext.control (controlled_ackSyn hc hs)
        obtain ⟨ht', hmove⟩ := hfin.control hv
        refine ⟨ht', ?_⟩
        rcases hmove with hsame | ⟨-, hclose⟩
        · exact .accepted hs (by rw [hsame, hvstate]; rfl)
        · exact .closed (.inl hs) hclose
      · cases hflow
      · cases hflow

theorem appCall_control {t t' : Tcb} {c : AppCall} (hc : Controlled t)
    (h : t.appCall c = .ok t') : Controlled t' ∧ t'.state = t.state := by
  cases appCall_cases h with
  | waits size cb hempty => exact ⟨hc.congr rfl rfl Iff.rfl, rfl⟩
  | reads size cb hdata => exact ⟨hc.congr rfl rfl Iff.rfl, rfl⟩
  | writes buf cb pq hpq hfit => exact ⟨hc.congr rfl rfl (by simp [afterWrite, hpq]), rfl⟩

theorem Controlled.enterTask {t : Tcb} (hc : Controlled t) (k : ℕ) (task : Task) :
    Controlled (t.enterTask k task) :=
  hc.congr (by simp) (by simp) (by simp)

/-- Every event keeps the pair of states among the six. -/
theorem step_controlled {isn : BitVec 32} {t t' : Tcb} {e : Event} (hc : Controlled t)
    (h : step isn t e = .ok t') : Controlled t' := by
  refine step_induction (P := Controlled) ?_ ?_ ?_ ?_ t e t' hc
    (eventOk_of_forall (fun _ _ => trivial) (fun _ _ => trivial) t e) h
  · exact fun t seg t' hc _ h => (process_control hc h).1
  · exact fun t c t' hc _ h => (appCall_control hc h).1
  · exact fun t k task hc _ => hc.enterTask k task
  · exact fun t pq hc hpq => hc.afterPacket hpq

/-! ## Past the handshake

ESTABLISHED and what follows it. -/

/-- The handshake is over: ESTABLISHED, CLOSE-WAIT or TIME-WAIT.  Nothing leads
back. -/
structure Open (t : Tcb) : Prop extends Controlled t where
  state : t.state = .established ∨ t.state = .closeWait ∨ t.state = .timeWait

theorem Open.of_established {t : Tcb} {pq : CircularBuffer Byte} (hstate : t.state = .established)
    (hnext : t.nextState = .established) (hpq : t.send.pq = some pq) : Open t := by
  refine ⟨⟨?_, ?_⟩, .inl hstate⟩
  · rw [hstate, hnext]; rfl
  · rw [hpq, hstate]; simp [TcpState.opening]

theorem Open.ne_synReceived {t : Tcb} (h : Open t) : t.state ≠ .synReceived := by
  rcases h.state with hs | hs | hs <;> rw [hs] <;> simp

theorem Open.synchronized {t : Tcb} (h : Open t) : t.state.synchronized = true := by
  rcases h.state with hs | hs | hs <;> rw [hs] <;> rfl

theorem Open.pq {t : Tcb} (h : Open t) : ∃ pq, t.send.pq = some pq := by
  refine h.pq_of_state ?_
  rcases h.state with hs | hs | hs <;> rw [hs] <;> rfl

/-- An open block stays open, and handles a segment in the numbered steps. -/
theorem Open.process {isn : BitVec 32} {t t' : Tcb} {seg : Segment} (h : Open t)
    (hprocess : t.process isn seg = .ok t') : Open t' := by
  obtain ⟨hc, hmove⟩ := process_control h.toControlled hprocess
  refine ⟨hc, ?_⟩
  cases hmove with
  | stays hstate hquiet => rw [hstate]; exact h.state
  | passiveOpen hstate hstate' =>
      rcases h.state with hs | hs | hs <;> rw [hs] at hstate <;> cases hstate
  | activeOpen hstate hstate' => exact .inl hstate'
  | accepted hstate hstate' => exact .inl hstate'
  | closed hstate hstate' => exact .inr (.inl hstate')
  | pending hstate hsends hstate' => exact .inr (.inr hstate')

theorem Open.appCall {t t' : Tcb} {c : AppCall} (h : Open t) (hcall : t.appCall c = .ok t') :
    Open t' := by
  obtain ⟨hc, hstate⟩ := appCall_control h.toControlled hcall
  exact ⟨hc, by rw [hstate]; exact h.state⟩

theorem Open.enterTask {t : Tcb} (h : Open t) (k : ℕ) (task : Task) :
    Open (t.enterTask k task) :=
  ⟨h.toControlled.enterTask k task, by rw [enterTask_state]; exact h.state⟩

theorem Open.afterPacket {t : Tcb} {pq : CircularBuffer Byte} (h : Open t)
    (hpq : t.send.pq = some pq) : Open (t.afterPacket pq) := by
  refine ⟨h.toControlled.afterPacket hpq, ?_⟩
  rw [afterPacket_state]
  rcases h.state with hs | hs | hs
  · exact .inl (h.nextState_eq hs rfl)
  · exact .inr (.inr (h.nextState_eq hs rfl))
  · exact .inr (.inr (h.nextState_eq hs rfl))

/-- What is left of an arriving segment once the handshake is over: it fails
the window test, or the ACK step answers it, or all three steps run. -/
theorem Open.process_cases {isn : BitVec 32} {t t' : Tcb} {seg : Segment} (h : Open t)
    (hprocess : t.process isn seg = .ok t') :
    (t.reachesAckStep seg = false ∧ t' = t) ∨
    (t.reachesAckStep seg = true ∧ AckOutcome t seg (.ret t')) ∨
    (t.reachesAckStep seg = true ∧ ∃ t₁ t₂, AckOutcome t seg (.next t₁) ∧
      TextOutcome t₁ seg t₂ ∧ FinOutcome t₂ seg t') := by
  cases Tcb.process_cases hprocess with
  | unchanged hno => exact .inl ⟨hno, rfl⟩
  | passiveOpen hstate => rcases h.state with hs | hs | hs <;> rw [hs] at hstate <;> cases hstate
  | activeOpen hstate => rcases h.state with hs | hs | hs <;> rw [hs] at hstate <;> cases hstate
  | returned hsync hreach hack => exact .inr (.inl ⟨hreach, hack⟩)
  | continued hsync hreach hack htext hfin =>
      exact .inr (.inr ⟨hreach, _, _, hack, htext, hfin⟩)

end Tcb

end Mstack
