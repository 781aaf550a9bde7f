import Mstack.Tcp.Control

/-!
# The RFC 793 diagram

Which changes of state follow the connection state diagram that the comments of
`process` restate.

In the FIN step the case for ESTABLISHED ends in a fall-through.  It
acknowledges the FIN with a packet, which takes the block to CLOSE-WAIT, and
goes on through the cases for FIN-WAIT-1 and FIN-WAIT-2, which leave
`next_state_` at TIME-WAIT.  The next packet then takes the block out of
CLOSE-WAIT, although the user has not closed.  Which packet that is does not
matter: it may acknowledge a read, carry data, or answer an acknowledgement of
something not yet sent.

### Main results

* `step_follows_iff` — one event follows the diagram if and only if it does not
  build a packet in CLOSE-WAIT.
* `rfc793_iff_quiet_in_closeWait` — the same for a run from a block that
  `tcb_manager` made.  So the fall-through is the **only** departure from the
  diagram.

### Implementation notes

`FollowsRfc793` compares the states before and behind one *event*.  A segment
with both ACK and FIN may take two edges, SYN-RECEIVED to ESTABLISHED and on to
CLOSE-WAIT, so for such a segment a path is allowed.  `BuildsPacket` is a
condition on the event and the state before it; in CLOSE-WAIT it decides where
a handler leaves the block (`task_in_closeWait`).
-/

namespace Mstack

namespace Tcb

open EventSystem (bind_eq_ok Admitted)

/-- The edges of the connection state diagram, as the comments of `process`
restate it.  There is no edge out of CLOSE-WAIT: it takes a CLOSE call of the
user, and the block has none.  The edges between states that no connection
enters are listed as well; they are part of the diagram. -/
inductive Rfc793 : TcpState → TcpState → Prop where
  | passiveOpen : Rfc793 .listen .synReceived
  | activeOpen : Rfc793 .synSent .established
  | accept : Rfc793 .synReceived .established
  | establishedFin : Rfc793 .established .closeWait
  | synReceivedFin : Rfc793 .synReceived .closeWait
  | finWait1Ack : Rfc793 .finWait1 .finWait2
  | finWait1Fin : Rfc793 .finWait1 .closing
  | finWait1FinAck : Rfc793 .finWait1 .timeWait
  | finWait2Fin : Rfc793 .finWait2 .timeWait
  | closingAck : Rfc793 .closing .timeWait
  | lastAckAck : Rfc793 .lastAck .closed

/-- The change from `s` to `s'` that one event made follows the diagram: no
change, an edge, or — for one segment with both ACK and FIN — a path. -/
def FollowsRfc793 (e : Event) (s s' : TcpState) : Prop :=
  s' = s ∨ Rfc793 s s' ∨
    (∃ seg, e = .process seg ∧ seg.tcph.ACK = true ∧ seg.tcph.FIN = true ∧
      Relation.TransGen Rfc793 s s')

theorem not_follows_closeWait {e : Event} {s : TcpState} (hne : s ≠ .closeWait) :
    ¬ FollowsRfc793 e .closeWait s := by
  rintro (h | h | ⟨seg, -, -, -, h⟩)
  · exact hne h
  · cases h
  · obtain ⟨u, hedge, -⟩ := Relation.TransGen.head'_iff.mp h
    cases hedge

/-- Handling the event builds a packet: the segment acknowledges something not
yet sent, a read completes, or the send loop finds unsent bytes. -/
def BuildsPacket (t : Tcb) : Event → Prop
  | .process seg => AcksUnsent t seg
  | .call _ => False
  | .task k _ =>
      (∃ cb len, t.ioCtx[k]? = some (.readDone cb len)) ∨
        (t.ioCtx[k]? = some .sendLoop ∧
          ∃ pq, t.send.pq = some pq ∧ t.appDataToSendLeft pq ≠ 0)

/-- The event does not build a packet while the block is in CLOSE-WAIT. -/
def QuietInCloseWait (t : Tcb) (e : Event) : Prop :=
  t.state = .closeWait → ¬ BuildsPacket t e

/-- Outside of CLOSE-WAIT a packet changes no state. -/
theorem afterPacket_keeps_state {t : Tcb} {pq : CircularBuffer Byte} (hc : Controlled t)
    (hpq : t.send.pq = some pq) (hne : t.state ≠ .closeWait) :
    (t.afterPacket pq).state = t.state := by
  have hopen := hc.state_of_pq hpq
  have hcontrol := hc.control
  rw [afterPacket_state]
  cases hs : t.state <;> simp_all [TcpState.pending, TcpState.opening]

/-- Outside of CLOSE-WAIT a handler changes no state. -/
theorem task_keeps_state {isn : BitVec 32} {t t' : Tcb} {k : ℕ} {calls : List AppCall}
    (hc : Controlled t) (hne : t.state ≠ .closeWait)
    (h : step isn t (.task k calls) = .ok t') : t'.state = t.state := by
  have key := task_induction (P := fun u => Controlled u ∧ u.state = t.state) ?_ ?_ ?_ ⟨hc, rfl⟩ h
  · exact key.2
  · rintro u c u' ⟨hu, hs⟩ h
    obtain ⟨hu', hs'⟩ := appCall_control hu h
    exact ⟨hu', hs'.trans hs⟩
  · rintro u k task ⟨hu, hs⟩ -
    exact ⟨hu.enterTask k task, by rw [enterTask_state, hs]⟩
  · rintro u pq ⟨hu, hs⟩ hpq
    exact ⟨hu.afterPacket hpq, by rw [afterPacket_keeps_state hu hpq (hs ▸ hne), hs]⟩

/-- Calls inside a callback change no state. -/
theorem appCalls_control {t t' : Tcb} {calls : List AppCall} (hc : Controlled t)
    (h : t.appCalls calls = .ok t') : Controlled t' ∧ t'.state = t.state := by
  refine appCalls_induction (P := fun u => Controlled u ∧ u.state = t.state) ?_ ⟨hc, rfl⟩ h
  rintro u c u' ⟨hu, hs⟩ h
  obtain ⟨hu', hs'⟩ := appCall_control hu h
  exact ⟨hu', hs'.trans hs⟩

/-- **In CLOSE-WAIT a packet decides.**  A handler that builds one leaves the
block in TIME-WAIT, any other leaves it where it is. -/
theorem task_in_closeWait {isn : BitVec 32} {t t' : Tcb} {k : ℕ} {calls : List AppCall}
    (hc : Controlled t) (hs : t.state = .closeWait)
    (h : step isn t (.task k calls) = .ok t') :
    (BuildsPacket t (.task k calls) ∧ t'.state = .timeWait) ∨
      (¬ BuildsPacket t (.task k calls) ∧ t'.state = .closeWait) := by
  unfold BuildsPacket
  cases hk : t.ioCtx[k]? with
  | none =>
      rw [step_task_none calls hk] at h
      cases h
      exact .inr ⟨by simp [hk], hs⟩
  | some task =>
      rw [step_task_some calls hk] at h
      have hc' := hc.enterTask k task
      cases task with
      | connectionEstablished =>
          exact .inr ⟨by simp [hk], by rw [(appCalls_control hc' h).2, enterTask_state, hs]⟩
      | writeDone cb len =>
          exact .inr ⟨by simp [hk], by rw [(appCalls_control hc' h).2, enterTask_state, hs]⟩
      | readDone cb len =>
          obtain ⟨u, hu, h⟩ := bind_eq_ok.mp h
          obtain ⟨pq, hpq, rfl⟩ := makeAndSendPkt_ok.mp h
          obtain ⟨hcu, hsu⟩ := appCalls_control hc' hu
          rw [enterTask_state, hs] at hsu
          exact .inl ⟨by simp [hk], by rw [afterPacket_state, hcu.nextState_eq hsu rfl]⟩
      -- The loop builds a packet exactly if something is left to send.
      | sendLoop =>
          obtain ⟨pq, hpq⟩ := hc.pq_of_state (by rw [hs]; rfl)
          have hpq' : (t.enterTask k .sendLoop).send.pq = some pq := by simpa using hpq
          have hleft : (t.enterTask k .sendLoop).appDataToSendLeft pq =
              t.appDataToSendLeft pq := by
            simp [appDataToSendLeft, appDataUnacknowleged]
          change (t.enterTask k .sendLoop).sendLoop = .ok t' at h
          rw [sendLoop_eq hpq', sendLoopFuel_succ hpq', hleft] at h
          split at h
          · rename_i hzero
            cases h
            exact .inr ⟨by simp [hk, hpq, hzero], by rw [enterTask_state, hs]⟩
          · rename_i hmore
            refine .inl ⟨by simp [hk, hpq, hmore], ?_⟩
            have htime : ((t.enterTask k .sendLoop).afterPacket pq).state = .timeWait := by
              rw [afterPacket_state, enterTask_nextState, hc.nextState_eq hs rfl]
            -- From the first packet on the state is TIME-WAIT, and packets keep it there.
            refine (sendLoopFuel_preserves (P := fun u => Controlled u ∧ u.state = .timeWait)
              ?_ pq.size ⟨hc'.afterPacket hpq', htime⟩ h).2
            rintro u pq ⟨hu, hsu⟩ hpqu
            exact ⟨hu.afterPacket hpqu,
              by rw [afterPacket_keeps_state hu hpqu (by simp [hsu]), hsu]⟩

/-- **One event.**  It follows the diagram if and only if it does not build a
packet in CLOSE-WAIT.  Outside of CLOSE-WAIT only segments change the state,
and `SegmentMove` lists how. -/
theorem step_follows_iff {isn : BitVec 32} {t t' : Tcb} {e : Event} (hc : Controlled t)
    (h : step isn t e = .ok t') :
    FollowsRfc793 e t.state t'.state ↔ QuietInCloseWait t e := by
  unfold QuietInCloseWait
  cases e with
  | call c =>
      rw [(appCall_control hc h).2]
      exact ⟨fun _ _ => id, fun _ => .inl rfl⟩
  | process seg =>
      -- From the other states both sides hold.
      have hedge : ∀ {s s' : TcpState}, s ≠ .closeWait → Rfc793 s s' →
          (FollowsRfc793 (.process seg) s s' ↔
            (s = .closeWait → ¬ BuildsPacket t (.process seg))) := by
        intro s s' hne hedge
        exact ⟨fun _ hs => (hne hs).elim, fun _ => .inr (.inl hedge)⟩
      cases (process_control hc h).2 with
      | stays hstate hquiet => exact ⟨fun _ => hquiet, fun _ => .inl hstate⟩
      | passiveOpen hstate hstate' =>
          rw [hstate, hstate']
          exact hedge (by simp) .passiveOpen
      | activeOpen hstate hstate' =>
          rw [hstate, hstate']
          exact hedge (by simp) .activeOpen
      | accepted hstate hstate' =>
          rw [hstate, hstate']
          exact hedge (by simp) .accept
      | closed hstate hstate' =>
          rcases hstate with hs | hs <;> rw [hs, hstate']
          · exact hedge (by simp) .synReceivedFin
          · exact hedge (by simp) .establishedFin
      | pending hstate hsends hstate' =>
          rw [hstate, hstate']
          exact ⟨fun hf => (not_follows_closeWait (by simp) hf).elim,
            fun hquiet => (hquiet rfl hsends).elim⟩
  | task k calls =>
      by_cases hs : t.state = .closeWait
      · rw [hs]
        rcases task_in_closeWait hc hs h with ⟨hbuilds, hs'⟩ | ⟨hquiet, hs'⟩ <;> rw [hs']
        · exact ⟨fun hf => (not_follows_closeWait (by simp) hf).elim,
            fun hquiet => (hquiet rfl hbuilds).elim⟩
        · exact ⟨fun _ _ => hquiet, fun _ => .inl rfl⟩
      · rw [task_keeps_state hc hs h]
        exact ⟨fun _ hs' => (hs hs').elim, fun _ => .inl rfl⟩

/-- **The diagram is followed exactly as long as CLOSE-WAIT is quiet.**  For a
block that `tcb_manager` made and every run of it: each change of state follows
RFC 793 if and only if no packet is built in CLOSE-WAIT.

Both sides speak of every step of the run, so the first packet built in
CLOSE-WAIT is the first departure. -/
theorem rfc793_iff_quiet_in_closeWait {isn : BitVec 32} {t t' : Tcb} {es : List Event}
    (hopen : Opened isn t) (hrun : run isn t es = .ok t') :
    Admitted (step isn)
        (fun u e => ∀ u', step isn u e = .ok u' → FollowsRfc793 e u.state u'.state) t es ↔
      Admitted (step isn) QuietInCloseWait t es := by
  have hadm : Admitted (step isn) (fun _ _ => True) t es :=
    EventSystem.admitted_of_forall (fun _ _ => trivial) t es
  refine EventSystem.admitted_iff (P := Controlled) ?_ hopen.controlled hadm hrun
  intro u e u' hc _ h
  refine ⟨step_controlled hc h, ?_⟩
  rw [← step_follows_iff hc h]
  constructor
  · intro hf
    exact hf u' h
  · intro hf v hv
    rw [h] at hv
    cases hv
    exact hf

/-- A handshake, a read that waits, two bytes for it, and the peer's FIN before
the completion of the read has run. -/
def lateRead : List Event :=
  [.process ⟨{ TcpHeader.bare with SYN := true, seqNo := 100, window := 500 }, [], []⟩,
    .process ⟨{ TcpHeader.bare with ACK := true, seqNo := 101, ackNo := 8 }, [], []⟩,
    .task 0 [.read 16 1],
    .process ⟨{ TcpHeader.bare with ACK := true, seqNo := 101, ackNo := 8 }, [], [0x68, 0x69]⟩,
    .process ⟨{ TcpHeader.bare with ACK := true, FIN := true, seqNo := 103, ackNo := 8 }, [], []⟩]

/-- The completion of the read acknowledges the two bytes, and with that packet
the block goes from CLOSE-WAIT to TIME-WAIT. -/
theorem closeWait_left_by_late_read : Opened 7 listening ∧
    ¬ Admitted (step 7)
      (fun u e => ∀ u', step 7 u e = .ok u' → FollowsRfc793 e u.state u'.state) listening
      (lateRead ++ [.task 0 []]) := by
  refine ⟨opened_listening 7, fun h => ?_⟩
  obtain ⟨u, u', hu, hu', hs, hs'⟩ : ∃ u u', run 7 listening lateRead = .ok u ∧
      step 7 u (.task 0 []) = .ok u' ∧ u.state = .closeWait ∧ u'.state = .timeWait :=
    ⟨_, _, rfl, rfl, rfl, rfl⟩
  have hfollows := (h.of_append hu).1 u' hu'
  rw [hs, hs'] at hfollows
  exact not_follows_closeWait (by simp) hfollows

/-- Up to the FIN the same run follows the diagram. -/
theorem lateRead_follows_rfc793 : Opened 7 listening ∧ Admitted (step 7)
    (fun u e => ∀ u', step 7 u e = .ok u' → FollowsRfc793 e u.state u'.state) listening
    lateRead := by
  refine ⟨opened_listening 7, (rfc793_iff_quiet_in_closeWait (opened_listening 7) rfl).mpr ?_⟩
  -- None of the five events is handled in CLOSE-WAIT.
  refine .cons (fun h => by cases h) rfl ?_
  refine .cons (fun h => by cases h) rfl ?_
  refine .cons (fun h => by cases h) rfl ?_
  refine .cons (fun h => by cases h) rfl ?_
  exact .single fun h => by cases h

end Tcb

end Mstack
