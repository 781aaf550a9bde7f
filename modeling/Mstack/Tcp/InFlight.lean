import Mstack.Tcp.Control

/-!
# What is in flight

The peer's window is read once, when it sizes the send queue, and never when a
segment is sent.  The bound on what is in flight follows all the same, for any
peer.

* A packet takes its bytes from the queue behind `app_data_unacknowleged`, so
  what is in flight grows no further than the queue is long
  (`inFlight_afterPacket_le`).
* `std::clamp` keeps SND.UNA on the way from its old value to SND.NXT, whatever
  number the peer acknowledges and whether or not the counters have wrapped in
  between (`SerialNumber.clamp_between`).

### Main result

`in_flight_bounded`: at most the window of the SYN or SYN-ACK that created the
queue is in flight, and no event takes SND.UNA past SND.NXT.  Segments, calls
and handlers are arbitrary.

### What is load-bearing

The queue may be emptied by a number that confirms nothing
(`Tcp.Acceptability`).  Then **more is in flight than is queued**, so an
invariant that relates the two would not hold.  `WindowBound` compares what is
in flight with the capacity, and `inFlight_afterPacket_le` has a maximum in it:
once more is in flight than is queued, nothing is sent.

The other subtlety is the SYN.  It counts as one in flight and is not queued,
and a peer may announce a window of zero; hence `max 1`.
-/

namespace Mstack

namespace Tcb

/-- SND.NXT − SND.UNA, in 32 bits. -/
def inFlight (t : Tcb) : ℕ := (t.send.state.seqNrNext - t.send.state.seqNrUnack).toNat

/-- How far SND.UNA has come from `t` to `t'`, in 32 bits. -/
def confirmed (t t' : Tcb) : ℕ := (t'.send.state.seqNrUnack - t.send.state.seqNrUnack).toNat

theorem inFlight_congr {t u : Tcb} (hsend : u.send = t.send) : u.inFlight = t.inFlight := by
  rw [inFlight, inFlight, hsend]

theorem confirmed_le_of_eq {t u : Tcb}
    (h : u.send.state.seqNrUnack = t.send.state.seqNrUnack) : t.confirmed u ≤ t.inFlight := by
  rw [confirmed, h, BitVec.sub_self]
  exact Nat.zero_le _

/-- **Sending stays within the queue.**  Once more is in flight than is queued
nothing is sent; until then a packet takes what is in flight no further than
the queue's size. -/
theorem inFlight_afterPacket_le (t : Tcb) (pq : CircularBuffer Byte) (hsize : pq.size < 2 ^ 32) :
    (t.afterPacket pq).inFlight ≤ max t.inFlight pq.size := by
  have hleft := t.appDataToSendLeft_le pq
  rw [appDataUnacknowleged] at hleft
  have hsum : (t.afterPacket pq).inFlight =
      (t.inFlight + t.appDataToSendLeft pq) % 2 ^ 32 := by
    rw [inFlight, inFlight, afterPacket_next, afterPacket_unack]
    rw [show ∀ x y z : BitVec 32, x + y - z = x - z + y by intro x y z; bv_omega]
    rw [BitVec.toNat_add, BitVec.toNat_ofNat, Nat.add_mod_mod]
  rw [hsum]
  change t.appDataToSendLeft pq ≤ pq.size - min pq.size t.inFlight at hleft
  have hflight : t.inFlight < 2 ^ 32 := BitVec.isLt _
  rw [Nat.mod_eq_of_lt (by omega)]
  omega

/-- Clamping SND.UNA splits what was in flight into what is confirmed and what
stays. -/
theorem clampUnack_inFlight (t : Tcb) (ackNo : BitVec 32) :
    t.confirmed (t.clampUnack ackNo) + (t.clampUnack ackNo).inFlight = t.inFlight :=
  SerialNumber.clamp_between ackNo t.send.state.seqNrUnack t.send.state.seqNrNext

/-- **The bound**: a queue of `window` slots, and at most that much in flight —
or the SYN, which is not queued. -/
structure WindowBound (window : BitVec 16) (t : Tcb) : Prop where
  queue : ∃ pq, t.send.pq = some pq ∧ pq.capacity = window.toNat
  bound : t.inFlight ≤ max 1 window.toNat

section WindowBound

variable {window : BitVec 16} {t u : Tcb} {pq : CircularBuffer Byte}

theorem WindowBound.congr (h : WindowBound window t) (hsend : u.send = t.send) :
    WindowBound window u := by
  refine ⟨?_, ?_⟩
  · rw [hsend]; exact h.queue
  · rw [inFlight_congr hsend]; exact h.bound

theorem WindowBound.capacity_eq (h : WindowBound window t) (hpq : t.send.pq = some pq) :
    pq.capacity = window.toNat := by
  obtain ⟨pq', hpq', hcap⟩ := h.queue
  rw [hpq] at hpq'
  cases hpq'
  exact hcap

theorem WindowBound.afterPacket (h : WindowBound window t) (hpq : t.send.pq = some pq) :
    WindowBound window (t.afterPacket pq) := by
  refine ⟨h.queue, ?_⟩
  have hcap := h.capacity_eq hpq
  have hsize := pq.size_le
  have hlt := window.isLt
  have hpacket := t.inFlight_afterPacket_le pq (by omega)
  have hbound := h.bound
  omega

theorem WindowBound.clampUnack (h : WindowBound window t) (ackNo : BitVec 32) :
    WindowBound window (t.clampUnack ackNo) := by
  refine ⟨h.queue, ?_⟩
  have hsplit := t.clampUnack_inFlight ackNo
  have hbound := h.bound
  omega

/-- The queue loses bytes and no capacity, and SND.UNA is clamped. -/
theorem WindowBound.ackData (h : WindowBound window t) (hpq : t.send.pq = some pq)
    (ackNo : BitVec 32) : WindowBound window (t.ackData pq ackNo) := by
  have hcap := h.capacity_eq hpq
  have hclamp := h.clampUnack ackNo
  exact ⟨⟨_, ackData_pq t pq ackNo, hcap⟩, hclamp.bound⟩

/-- **The ACK step**, against any number.  Whatever is erased from the queue,
its capacity stays; and whatever the number is, it is clamped. -/
theorem AckOutcome.windowBound {seg : Segment} {flow : Flow} (hout : AckOutcome t seg flow)
    (h : WindowBound window t) :
    WindowBound window flow.block ∧ t.confirmed flow.block ≤ t.inFlight := by
  cases hout with
  | absent hACK => exact ⟨h, confirmed_le_of_eq rfl⟩
  | accepted hACK hstate hlo hhi =>
      have hclamp := h.clampUnack seg.tcph.ackNo
      have hsplit := t.clampUnack_inFlight seg.tcph.ackNo
      exact ⟨hclamp.congr rfl, hsplit ▸ Nat.le_add_right _ _⟩
  | refused hACK hstate hrange => exact ⟨h, confirmed_le_of_eq rfl⟩
  | data hACK hstate pq hpq hhi =>
      obtain ⟨n, hn⟩ := (t.ackData pq seg.tcph.ackNo).ackNextState_eq
      have hsplit := t.clampUnack_inFlight seg.tcph.ackNo
      rw [hn]
      exact ⟨(h.ackData hpq seg.tcph.ackNo).congr rfl, hsplit ▸ Nat.le_add_right _ _⟩
  | unsent hACK hstate pq pq' hpq hhi hpq' =>
      have hsplit := t.clampUnack_inFlight seg.tcph.ackNo
      exact ⟨(h.ackData hpq seg.tcph.ackNo).afterPacket hpq', hsplit ▸ Nat.le_add_right _ _⟩
  | lastAck hACK hstate =>
      exact ⟨h.congr rfl, confirmed_le_of_eq rfl⟩
  | timeWait hACK hstate pq hpq =>
      exact ⟨h.afterPacket hpq, confirmed_le_of_eq rfl⟩
  | unsynchronized hACK hstate =>
      exact ⟨h, confirmed_le_of_eq rfl⟩

/-- The FIN step sends a packet at most. -/
theorem FinOutcome.windowBound {seg : Segment} (hout : FinOutcome t seg u)
    (h : WindowBound window t) :
    WindowBound window u ∧ u.send.state.seqNrUnack = t.send.state.seqNrUnack := by
  cases hout with
  | ignored hno => exact ⟨h, rfl⟩
  | closed hFIN hstate pq hpq =>
      have hbefore : WindowBound window ((t.advanceRcvNext 1).setNextState .closeWait) :=
        h.congr rfl
      exact ⟨(hbefore.afterPacket hpq).congr rfl, rfl⟩
  | finWait hFIN hstate => exact ⟨h.congr rfl, rfl⟩

/-- **An arriving segment**, once there is a queue.  Whatever packets the steps
build, sending stays within the queue. -/
theorem WindowBound.process {isn : BitVec 32} {seg : Segment} (h : WindowBound window t)
    (hc : Controlled t) (hprocess : t.process isn seg = .ok u) :
    WindowBound window u ∧ t.confirmed u ≤ t.inFlight := by
  obtain ⟨pq, hpq, -⟩ := h.queue
  have hopen := hc.state_of_pq hpq
  cases process_cases hprocess with
  | unchanged hno => exact ⟨h, confirmed_le_of_eq rfl⟩
  | passiveOpen hstate => rw [hstate] at hopen; cases hopen
  | activeOpen hstate => rw [hstate] at hopen; cases hopen
  | returned hsync hreach hack => exact hack.windowBound h
  | @continued t₁ t₂ t' hsync hreach hack htext hfin =>
      obtain ⟨h₁, hmove⟩ := hack.windowBound h
      obtain ⟨h₂, hsame⟩ := hfin.windowBound (h₁.congr htext.send_eq)
      refine ⟨h₂, ?_⟩
      rw [htext.send_eq] at hsame
      rw [confirmed, hsame]
      exact hmove

theorem WindowBound.appCall {c : AppCall} (h : WindowBound window t)
    (hcall : t.appCall c = .ok u) : WindowBound window u := by
  cases appCall_cases hcall with
  | waits size cb hempty => exact h.congr rfl
  | reads size cb hdata => exact h.congr rfl
  | writes buf cb pq hpq hfit =>
      have hcap := h.capacity_eq hpq
      exact ⟨⟨_, rfl, hcap⟩, h.bound⟩

theorem appCall_unack {c : AppCall} (hcall : t.appCall c = .ok u) :
    u.send.state.seqNrUnack = t.send.state.seqNrUnack := by
  cases appCall_cases hcall <;> rfl

/-- **One event**, once there is a queue: the bound is kept, and SND.UNA comes
no further than SND.NXT was. -/
theorem WindowBound.step {isn : BitVec 32} {e : Event} (h : WindowBound window t)
    (hc : Controlled t) (hstep : step isn t e = .ok u) :
    WindowBound window u ∧ t.confirmed u ≤ t.inFlight := by
  cases e with
  | process seg => exact h.process hc hstep
  | call c =>
      exact ⟨h.appCall hstep, confirmed_le_of_eq (appCall_unack hstep)⟩
  | task k calls =>
      -- Neither callbacks nor packets touch SND.UNA.
      have hsame : WindowBound window u ∧
          u.send.state.seqNrUnack = t.send.state.seqNrUnack := by
        refine task_induction (P := fun v => WindowBound window v ∧
          v.send.state.seqNrUnack = t.send.state.seqNrUnack) ?_ ?_ ?_ ⟨h, rfl⟩ hstep
        · exact fun v c v' hv hcall => ⟨hv.1.appCall hcall, (appCall_unack hcall).trans hv.2⟩
        · exact fun v k task hv _ => ⟨hv.1.congr (by simp), by simpa using hv.2⟩
        · exact fun v pq hv hpq => ⟨hv.1.afterPacket hpq, hv.2⟩
      exact ⟨hsame.1, confirmed_le_of_eq hsame.2⟩

end WindowBound

/-! ## Where the queue comes from

The bound is about the window of a segment in the past, so the invariant
carries the history. -/

/-- The event by which the send queue was created: `past` runs from `t₀` to a
block without a queue, which then handles the SYN `seg` and has one. -/
structure QueueFrom (isn : BitVec 32) (t₀ : Tcb) (past : List Event) (seg : Segment) : Prop where
  SYN : seg.tcph.SYN = true
  creates : ∃ pre post u v pq, past = pre ++ .process seg :: post ∧ run isn t₀ pre = .ok u ∧
    u.send.pq = none ∧ u.process isn seg = .ok v ∧ v.send.pq = some pq

theorem QueueFrom.append {isn : BitVec 32} {t₀ : Tcb} {past : List Event} {seg : Segment}
    (h : QueueFrom isn t₀ past seg) (es : List Event) : QueueFrom isn t₀ (past ++ es) seg := by
  obtain ⟨hSYN, pre, post, u, v, pq, rfl, hrest⟩ := h
  exact ⟨hSYN, pre, post ++ es, u, v, pq, by simp, hrest⟩

/-- The history: before the queue exists, SYN-SENT has only its SYN in flight;
then the bound holds for the window of the SYN that created the queue.  `past`
are the events so far. -/
structure Bounding (isn : BitVec 32) (t₀ : Tcb) (past : List Event) (t : Tcb) : Prop
    extends Controlled t where
  reached : run isn t₀ past = .ok t
  synSent : t.state = .synSent → t.inFlight = 1
  bounded : ∀ pq, t.send.pq = some pq →
    ∃ seg, QueueFrom isn t₀ past seg ∧ WindowBound seg.tcph.window t

theorem Opened.bounding {isn : BitVec 32} {t : Tcb} (h : Opened isn t) :
    Bounding isn t [] t := by
  refine ⟨h.controlled, rfl, ?_, ?_⟩
  · intro hstate
    cases h with
    | passive remoteEp localEp junkSend junkRcv => cases hstate
    | active remoteEp localEp junkSend junkRcv h =>
        rw [startConnecting_eq] at h
        cases h
        rw [inFlight, show (afterConnect _ isn).send.state.seqNrNext -
          (afterConnect _ isn).send.state.seqNrUnack = isn + 1 - isn from rfl]
        bv_omega
  · intro pq hpq
    cases h with
    | passive remoteEp localEp junkSend junkRcv => cases hpq
    | active remoteEp localEp junkSend junkRcv h =>
        rw [startConnecting_eq] at h
        cases h
        cases hpq

/-- The block right after the queue was created sends nothing, so that only the
SYN can be in flight. -/
theorem windowBound_fresh {t : Tcb} {window : BitVec 16}
    (hpq : t.send.pq = some (CircularBuffer.ofCapacity window.toNat)) (hone : t.inFlight ≤ 1) :
    WindowBound window (t.afterPacket (CircularBuffer.ofCapacity window.toNat)) := by
  have h : WindowBound window t := ⟨⟨_, hpq, rfl⟩, hone.trans (Nat.le_max_left _ _)⟩
  exact h.afterPacket hpq

/-- **A segment that finds no queue** changes nothing, or is the SYN or SYN-ACK
that creates the queue and sizes it by its window. -/
theorem Bounding.process_of_none {isn : BitVec 32} {t₀ t t' : Tcb} {past : List Event}
    {seg : Segment} (h : Bounding isn t₀ past t) (hnone : t.send.pq = none)
    (hprocess : t.process isn seg = .ok t') :
    t' = t ∨ (seg.tcph.SYN = true ∧ WindowBound seg.tcph.window t') := by
  have hsync : t.state.synchronized = false := TcpState.not_synchronized (h.queue.mp hnone)
  cases process_cases hprocess with
  | unchanged hno => exact .inl rfl
  | passiveOpen hstate hRST hACK hSYN opts hopts =>
      refine .inr ⟨hSYN, windowBound_fresh rfl ?_⟩
      show (isn + 1 - isn).toNat ≤ 1
      bv_omega
  | activeOpen hstate hSYN hACK hlo hhi opts hopts =>
      have hone := h.synSent hstate
      refine .inr ⟨hSYN, (windowBound_fresh rfl ?_).congr rfl⟩
      show (t.send.state.seqNrNext - seg.tcph.ackNo).toNat ≤ 1
      rw [inFlight] at hone
      bv_omega
  | returned hsync' => rw [hsync] at hsync'; cases hsync'
  | continued hsync' => rw [hsync] at hsync'; cases hsync'

/-- As long as there is no queue, calls and handlers leave the state and the
send side alone. -/
theorem step_of_none {isn : BitVec 32} {t t' : Tcb} {e : Event} (hnone : t.send.pq = none)
    (hne : ∀ seg, e ≠ .process seg) (hstep : step isn t e = .ok t') :
    t'.state = t.state ∧ t'.send = t.send := by
  have hcall : ∀ v c v', v.state = t.state ∧ v.send = t.send → appCall v c = .ok v' →
      v'.state = t.state ∧ v'.send = t.send := by
    intro v c v' hv hcall
    cases appCall_cases hcall with
    | waits size cb hempty => exact hv
    | reads size cb hdata => exact hv
    | writes buf cb pq hpq hfit => rw [hv.2, hnone] at hpq; cases hpq
  cases e with
  | process seg => exact (hne seg rfl).elim
  | call c => exact hcall t c t' ⟨rfl, rfl⟩ hstep
  | task k calls =>
      refine task_induction (P := fun v => v.state = t.state ∧ v.send = t.send) hcall ?_ ?_
        ⟨rfl, rfl⟩ hstep
      · exact fun v k task hv _ => by rw [enterTask_state, enterTask_send]; exact hv
      · intro v pq hv hpq
        rw [hv.2, hnone] at hpq
        cases hpq

/-- **One event**, with its history.  Before there is a queue only a segment
can create one; afterwards `WindowBound.step` applies. -/
theorem Bounding.step {isn : BitVec 32} {t₀ t t' : Tcb} {past : List Event} {e : Event}
    (h : Bounding isn t₀ past t) (hstep : step isn t e = .ok t') :
    Bounding isn t₀ (past ++ [e]) t' := by
  have hc := step_controlled h.toControlled hstep
  have hreached : run isn t₀ (past ++ [e]) = .ok t' := by
    rw [run, EventSystem.run_concat, show EventSystem.run _ t₀ past = .ok t from h.reached,
      EventSystem.ok_bind, hstep]
  cases hpq : t.send.pq with
  | some pq =>
      obtain ⟨seg, hfrom, hbound⟩ := h.bounded pq hpq
      have hbound' := (hbound.step h.toControlled hstep).1
      obtain ⟨pq', hpq', -⟩ := hbound'.queue
      refine ⟨hc, hreached, ?_, fun _ _ => ⟨seg, hfrom.append [e], hbound'⟩⟩
      intro hstate
      have hopen := hc.state_of_pq hpq'
      rw [hstate] at hopen
      cases hopen
  | none =>
      -- Unless the event is the segment that opens the connection, there still is no queue.
      have hsame : t'.state = t.state → t'.send = t.send → Bounding isn t₀ (past ++ [e]) t' := by
        intro hstate hsend
        refine ⟨hc, hreached, ?_, ?_⟩
        · intro hs
          rw [inFlight_congr hsend]
          exact h.synSent (hstate ▸ hs)
        · intro pq' hpq'
          rw [hsend, hpq] at hpq'
          cases hpq'
      by_cases hne : ∀ seg, e ≠ .process seg
      · obtain ⟨hstate, hsend⟩ := step_of_none hpq hne hstep
        exact hsame hstate hsend
      · simp only [ne_eq, not_forall, not_not] at hne
        obtain ⟨seg, rfl⟩ := hne
        rcases h.process_of_none hpq hstep with rfl | ⟨hSYN, hbound⟩
        · exact hsame rfl rfl
        · obtain ⟨pq', hpq', -⟩ := hbound.queue
          refine ⟨hc, hreached, ?_, fun _ _ => ⟨seg, ⟨hSYN, ?_⟩, hbound⟩⟩
          · intro hstate
            have hopen := hc.state_of_pq hpq'
            rw [hstate] at hopen
            cases hopen
          · exact ⟨past, [], t, t', pq', rfl, h.reached, hpq, hstep, hpq'⟩

/-- **In-flight data is bounded by the handshake window.**  In every state that
a block reaches with its send queue, over arbitrary segments, writes, reads and
handlers: at most the window of the SYN or SYN-ACK that created the queue is in
flight — or one, the block's own SYN — and no further event takes SND.UNA past
SND.NXT.

The difference is taken in 32 bits, so the statement holds wherever the
counters stand. -/
theorem in_flight_bounded {isn : BitVec 32} {t₀ t : Tcb} {es : List Event}
    {pq : CircularBuffer Byte} (hopened : Opened isn t₀) (hrun : run isn t₀ es = .ok t)
    (hpq : t.send.pq = some pq) :
    (∃ seg, QueueFrom isn t₀ es seg ∧
      (t.send.state.seqNrNext - t.send.state.seqNrUnack).toNat ≤ max 1 seg.tcph.window.toNat) ∧
    ∀ e t', step isn t e = .ok t' →
      (t'.send.state.seqNrUnack - t.send.state.seqNrUnack).toNat ≤
        (t.send.state.seqNrNext - t.send.state.seqNrUnack).toNat := by
  have hadm : EventSystem.Admitted (Tcb.step isn) (fun _ _ => True) t₀ es :=
    EventSystem.admitted_of_forall (fun _ _ => trivial) t₀ es
  have h : Bounding isn t₀ es t :=
    EventSystem.run_history (P := fun past s => Bounding isn t₀ past s)
      (fun past s e s' h _ hs => h.step hs) hopened.bounding hadm hrun
  obtain ⟨seg, hfrom, hbound⟩ := h.bounded pq hpq
  refine ⟨⟨seg, hfrom, hbound.bound⟩, ?_⟩
  intro e t' hstep
  exact (hbound.step h.toControlled hstep).2

/-- A passive open by a peer with a window of three, an acknowledgement of the
SYN, and a write of three bytes, which are sent in two segments. -/
def threeInFlight : List Event :=
  [.process ⟨{ TcpHeader.bare with SYN := true, seqNo := 100, window := 3 }, [2, 4, 0, 2], []⟩,
    .process ⟨{ TcpHeader.bare with ACK := true, seqNo := 101, ackNo := 8 }, [], []⟩,
    .call (.write [0x61, 0x62, 0x63] 1), .task 1 []]

/-- A number far ahead of SND.NXT. -/
def hostileAck : Event :=
  .process ⟨{ TcpHeader.bare with ACK := true, seqNo := 101, ackNo := 900 }, [], []⟩

/-- Three bytes are in flight, in a window of three; and the number that
acknowledges 892 of them takes SND.UNA forward by three. -/
theorem hostileAck_bounded : ∃ t t', run 7 listening threeInFlight = .ok t ∧
    (t.send.state.seqNrNext - t.send.state.seqNrUnack).toNat = 3 ∧
    (∃ seg, QueueFrom 7 listening threeInFlight seg ∧
      (t.send.state.seqNrNext - t.send.state.seqNrUnack).toNat ≤ max 1 seg.tcph.window.toNat) ∧
    step 7 t hostileAck = .ok t' ∧
    (t'.send.state.seqNrUnack - t.send.state.seqNrUnack).toNat ≤
      (t.send.state.seqNrNext - t.send.state.seqNrUnack).toNat := by
  have hrun : run 7 listening threeInFlight = .ok _ := rfl
  have hbounded := in_flight_bounded (opened_listening 7) hrun rfl
  exact ⟨_, _, rfl, rfl, hbounded.1, rfl, hbounded.2 hostileAck _ rfl⟩

end Tcb

end Mstack
