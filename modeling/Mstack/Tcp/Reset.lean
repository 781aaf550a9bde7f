import Mstack.Tcp.Handshake

/-!
# Resets

`tcb_t::process` and the handlers it calls look at RST before they do anything,
with one exception.  CLOSED returns whatever arrives, LISTEN tests RST first,
and the second of the four steps that all synchronized states share drops a
segment with RST before its ACK field, its text or its FIN is looked at.
SYN-SENT tests SYN and ACK first.  A SYN-ACK whose number is in range is taken
there and then: `rcv_` and `send_` are set up, the options are decoded,
`state_` becomes ESTABLISHED, the acknowledgement is sent and `listen_finish`
posts the connection callback.  The block behind the comment
`second check the RST bit` stands behind all this, and is empty.

* `OpensOnReset` — the way past the test: the conditions on the block and on
  the header that `tcp_handle_syn_sent` checks before it acts.  The options are
  no part of it: a segment whose options cannot be decoded does not make the
  test of RST come any earlier.
* `process_reset` — a reset that does not go this way is returned from at once,
  with the block as it was.  In particular no assertion fails.
* `resetIgnored_iff` — "has no effect" is asked in its strong form: `process`
  returns, and nothing of what `ResetIgnored` lists has changed.  So a fault on
  the way, in the options of a SYN-ACK with RST, counts as an effect.

The result for runs follows from the one for a step by
`EventSystem.run_filter`: events that leave the state alone can be left out of
a run.
-/

namespace Mstack

namespace Tcb

open EventSystem (Admitted)

/-- What a reset leaves alone: `state_` is not set to ESTABLISHED, the
connection callback is not posted, no bytes go to a reader or into the receive
queue, and no segment is emitted. -/
structure ResetIgnored (t t' : Tcb) : Prop where
  established : t'.trace.states.count .established = t.trace.states.count .established
  posted : t'.ioCtx.count .connectionEstablished = t.ioCtx.count .connectionEstablished
  copied : t'.trace.copied = t.trace.copied
  queue : t'.rcv.pq = t.rcv.pq
  emitted : t'.mngr = t.mngr

theorem ResetIgnored.refl (t : Tcb) : ResetIgnored t t := ⟨rfl, rfl, rfl, rfl, rfl⟩

/-- The tests of SYN-SENT that stand in front of the one for RST, all passed:
the segment is a SYN-ACK, and its number lies between SND.UNA and SND.NXT as
the code compares them. -/
structure OpensOnReset (t : Tcb) (seg : Segment) : Prop where
  state : t.state = .synSent
  SYN : seg.tcph.SYN = true
  ACK : seg.tcph.ACK = true
  lo : ¬ seg.tcph.ackNo < t.send.state.seqNrUnack
  hi : ¬ seg.tcph.ackNo > t.send.state.seqNrNext

section Segment

variable {isn : BitVec 32} {t t' : Tcb} {seg : Segment}

/-- **A reset that does not get past the test changes nothing at all**, and is
returned from: the case of each state is the test that it makes first. -/
theorem process_reset (hRST : seg.tcph.RST = true) (hno : ¬ OpensOnReset t seg) :
    t.process isn seg = .ok t := by
  have hreach : t.reachesAckStep seg = false := by simp [reachesAckStep, hRST]
  cases hstate : t.state with
  | listen => simp only [process, hstate, tcpHandleListenState, hRST, if_true]
  | synSent =>
      simp only [process, hstate, tcpHandleSynSent]
      split
      · rename_i hflags
        obtain ⟨hSYN, hACK⟩ := Bool.and_eq_true_iff.mp hflags
        -- The number is out of range, since the reset does not open.
        rw [if_neg fun hrange => hno ⟨hstate, hSYN, hACK, hrange.1, hrange.2⟩]
      · rfl
  | closed => simp only [process, hstate]
  | _ =>
      simp only [process, hstate, hreach]
      rfl

/-- A reset that does get past it is answered, like any SYN-ACK, if its options
can be decoded. -/
theorem OpensOnReset.mngr_ne (h : OpensOnReset t seg) (hprocess : t.process isn seg = .ok t') :
    t'.mngr ≠ t.mngr := by
  have hflags : (seg.tcph.SYN && seg.tcph.ACK) = true := by rw [h.SYN, h.ACK]; rfl
  simp only [Tcb.process, h.state] at hprocess
  rw [tcpHandleSynSent, if_pos hflags, if_pos ⟨h.lo, h.hi⟩] at hprocess
  obtain ⟨opts, -, hprocess⟩ := EventSystem.bind_eq_ok.mp hprocess
  obtain ⟨u, hu, hprocess⟩ := EventSystem.bind_eq_ok.mp hprocess
  obtain ⟨pq, -, rfl⟩ := makeAndSendPkt_ok.mp hu
  obtain rfl := Except.ok.inj hprocess
  -- The answer stands behind what was sent before.
  intro heq
  have hlen := congrArg List.length heq
  change (t.mngr ++ [_]).length = t.mngr.length at hlen
  rw [List.length_append, List.length_singleton] at hlen
  omega

/-- **When a reset has no effect.**  It is processed without a fault, and
leaves alone what `ResetIgnored` lists, exactly if it does not get past the
test of SYN-SENT. -/
theorem resetIgnored_iff (hRST : seg.tcph.RST = true) :
    (∃ t', t.process isn seg = .ok t' ∧ ResetIgnored t t') ↔ ¬ OpensOnReset t seg := by
  constructor
  · rintro ⟨t', hprocess, hignored⟩ hopens
    exact hopens.mngr_ne hprocess hignored.emitted
  · intro hno
    exact ⟨t, process_reset hRST hno, .refl t⟩

end Segment

/-! ## Runs -/

/-- A segment with RST, whatever else it carries. -/
def isReset : Event → Bool
  | .process seg => seg.tcph.RST
  | _ => false

/-- If the event is a reset, it does not get past the test of SYN-SENT. -/
def ResetOk (t : Tcb) : Event → Prop
  | .process seg => seg.tcph.RST = true → ¬ OpensOnReset t seg
  | _ => True

/-- A reset that is not taken for a SYN-ACK is an event that leaves the block
alone. -/
theorem step_reset {isn : BitVec 32} {t t' : Tcb} {e : Event} (he : isReset e = true)
    (hok : ResetOk t e) (hstep : step isn t e = .ok t') : t' = t := by
  cases e with
  | process seg => exact Except.ok.inj (hstep.symm.trans (process_reset he (hok he)))
  | call c => cases he
  | task k calls => cases he

/-- **Resets on a connection.**  In every state that a block reaches, a reset
is processed without a fault and without effect exactly if it does not get past
the test of SYN-SENT; and where no reset of a run does, the block is what it
would be had none of them arrived.

The first part is about every state, the second one about the whole run: its
condition is asked of each reset in the state in which it arrives. -/
theorem reset_has_no_effect_iff (isn : BitVec 32) (t₀ t : Tcb) (es : List Event)
    (hrun : run isn t₀ es = .ok t) :
    (∀ seg, seg.tcph.RST = true →
      ((∃ t', t.process isn seg = .ok t' ∧ ResetIgnored t t') ↔ ¬ OpensOnReset t seg)) ∧
    (Admitted (step isn) ResetOk t₀ es → run isn t₀ (es.filter fun e => !isReset e) = .ok t) :=
  ⟨fun _ hRST => resetIgnored_iff hRST,
    fun hok => EventSystem.run_filter (fun _ _ _ he hoke hstep => step_reset he hoke hstep) hok hrun⟩

/-- A reset that looks like the answer to our SYN. -/
def resetSynAck : Segment :=
  ⟨{ TcpHeader.bare with
      SYN := true, ACK := true, RST := true, seqNo := 100, ackNo := 8, window := 500 }, [], []⟩

/-- It opens the connection: SYN-SENT goes to ESTABLISHED, posts the callback
and answers. -/
theorem reset_opens_connection : Opened 7 (connecting 7) ∧ resetSynAck.tcph.RST = true ∧
    ∃ t', (connecting 7).process 7 resetSynAck = .ok t' ∧ t'.state = .established ∧
      t'.trace.states.count .established = (connecting 7).trace.states.count .established + 1 ∧
      t'.ioCtx = [.connectionEstablished] ∧
      t'.mngr.length = (connecting 7).mngr.length + 1 :=
  ⟨opened_connecting 7, rfl, _, rfl, rfl, rfl, rfl, rfl⟩

/-- A reset without SYN is dropped, and the SYN-ACK behind it opens the
connection. -/
theorem reset_before_synAck :
    let reset : Segment := { resetSynAck with tcph := { resetSynAck.tcph with SYN := false } }
    let synAck : Segment := { resetSynAck with tcph := { resetSynAck.tcph with RST := false } }
    ∃ t, run 7 (connecting 7) [.process reset, .process synAck] = .ok t ∧
      t.state = .established ∧ run 7 (connecting 7) [.process synAck] = .ok t := by
  intro reset synAck
  have hok : Admitted (step 7) ResetOk (connecting 7) [.process reset, .process synAck] := by
    refine .cons (fun _ h => Bool.false_ne_true h.SYN) rfl ?_
    exact .single fun h => by cases h
  exact ⟨_, rfl, rfl, (reset_has_no_effect_iff 7 (connecting 7) _
    [.process reset, .process synAck] rfl).2 hok⟩

end Tcb

end Mstack
