import Mstack.Tcp.Control

/-!
# The life cycle of a connection

A block that `tcb_manager` made only moves forward.  The order is LISTEN and
SYN-SENT, SYN-RECEIVED, ESTABLISHED, CLOSE-WAIT, TIME-WAIT; `TcpState.rank`
numbers it.

Whether the application is told of its connection once, and whether the block
ever dereferences a queue that is not there, are questions about the whole
history: `std::function`s in `io_ctx_`, assignments to `state_`, packets handed
to the manager.  `Ledger` relates these histories to the state the block is in,
and `Life` adds what makes it inductive.

### Main results

`lifeCycle_monotone`, for every run over arbitrary segments and handlers:

* the rank of the state never decreases;
* the connection callback is posted at most once, and exactly where ESTABLISHED
  is entered from a handshake state;
* at most one SYN is sent, and it carries the ISN;
* the send queue exists from SYN-RECEIVED on, and no step looks for one that is
  not there.

### What is load-bearing

**Before ESTABLISHED the application does not hold the block**: it gets it as
an argument of the connection callback, so until then no call is made and there
is no handler to run (`Life.idle`).  This is the only thing assumed of the
application, `LifeEventOk`.  Without it a write during the handshake would look
for a queue that the peer has not given yet.
-/

namespace Mstack

/-- The states a connection goes through. -/
def TcpState.onLifeCycle : TcpState → Bool
  | .listen | .synSent | .synReceived | .established | .closeWait | .timeWait => true
  | _ => false

/-- Their order: LISTEN and SYN-SENT, SYN-RECEIVED, ESTABLISHED, CLOSE-WAIT,
TIME-WAIT.  The states that no connection enters have rank zero. -/
def TcpState.rank : TcpState → ℕ
  | .synReceived => 1
  | .established => 2
  | .closeWait => 3
  | .timeWait => 4
  | _ => 0

namespace Tcb

open EventSystem (bind_eq_ok bind_eq_error Admitted)

/-- How often the connection callback has been posted: the handlers that wait
and those that have run. -/
def posted (t : Tcb) : ℕ :=
  t.ioCtx.count .connectionEstablished + t.trace.called.count .connectionEstablished

/-- How often `state_` has been set to ESTABLISHED. -/
def entered (t : Tcb) : ℕ := t.trace.states.count .established

/-- The packets with SYN set, among those handed to the manager. -/
def synsSent (t : Tcb) : List TcpPacket := t.mngr.filter (·.skb.tcph.SYN)

/-- What the history of a block says about its connection.  The callback was
posted as often as ESTABLISHED was entered, and that is at most once. -/
structure Ledger (isn : BitVec 32) (t : Tcb) : Prop where
  posted_eq : t.posted = t.entered
  entered_le : t.entered ≤ 1
  /-- `state_` was only ever set to states of the life cycle, in order. -/
  sorted : t.trace.states.Pairwise fun s s' => s.rank ≤ s'.rank
  bounded : ∀ s ∈ t.trace.states, s.onLifeCycle = true ∧ s.rank ≤ t.state.rank
  syns : t.synsSent.length ≤ if t.state = .listen then 0 else 1
  synSeq : ∀ pkt ∈ t.synsSent, pkt.skb.tcph.seqNo = isn

/-- **The life-cycle invariant**: the pair of states, the history, and silence
before ESTABLISHED. -/
structure Life (isn : BitVec 32) (t : Tcb) : Prop extends Controlled t, Ledger isn t where
  /-- Before ESTABLISHED nothing is posted and nobody has been called. -/
  idle : t.state.rank < 2 → t.ioCtx = [] ∧ ¬ Connected t ∧ t.entered = 0

theorem Ledger.congr {isn : BitVec 32} {t u : Tcb} (h : Ledger isn t)
    (hstate : u.state = t.state) (hposted : u.posted = t.posted)
    (hstates : u.trace.states = t.trace.states) (hmngr : u.mngr = t.mngr) : Ledger isn u := by
  have hentered : u.entered = t.entered := by rw [entered, entered, hstates]
  refine ⟨?_, ?_, ?_, ?_, ?_, ?_⟩
  · rw [hposted, hentered]; exact h.posted_eq
  · rw [hentered]; exact h.entered_le
  · rw [hstates]; exact h.sorted
  · rw [hstates, hstate]; exact h.bounded
  · rw [synsSent, hmngr, hstate]; exact h.syns
  · rw [synsSent, hmngr]; exact h.synSeq

theorem Opened.life {isn : BitVec 32} {t : Tcb} (h : Opened isn t) : Life isn t := by
  have hcontrolled := h.controlled
  cases h with
  | passive remoteEp localEp junkSend junkRcv =>
      refine ⟨hcontrolled, ?_, ?_⟩
      · constructor <;> simp [create, posted, entered, synsSent]
      · simp [create, Connected, entered]
  | active remoteEp localEp junkSend junkRcv h =>
      rw [startConnecting_eq] at h
      cases h
      refine ⟨hcontrolled, ?_, ?_⟩
      · constructor <;>
          simp [create, afterConnect, synOut, posted, entered, synsSent, TcpState.onLifeCycle]
      · simp [create, afterConnect, Connected, entered]

/-! ## Sending a packet

The place where a pending state is entered, and where a SYN comes from. -/

theorem posted_afterPacket (t : Tcb) (pq : CircularBuffer Byte) :
    (t.afterPacket pq).posted = t.posted := rfl

theorem packetOut_SYN (t : Tcb) (pq : CircularBuffer Byte) :
    (t.packetOut pq).skb.tcph.SYN = decide (t.nextState = .synReceived) := by
  simp only [packetOut, outTcp, eq_comm]

/-- A packet that is not a SYN adds to the history at most the state it
enters. -/
theorem Ledger.afterPacket {isn : BitVec 32} {t : Tcb} (pq : CircularBuffer Byte)
    (h : Ledger isn t) (hon : t.nextState.onLifeCycle = true)
    (hrank : t.state.rank ≤ t.nextState.rank)
    (hne : t.nextState ≠ .synReceived ∧ t.nextState ≠ .listen)
    (hest : t.nextState = .established → t.state = .established) :
    Ledger isn (t.afterPacket pq) ∧ (t.afterPacket pq).entered = t.entered := by
  have hsyns : (t.afterPacket pq).synsSent = t.synsSent := by
    simp [synsSent, packetOut_SYN, hne.1]
  -- The one state that counts as entered is not a new one.
  have hentered : (t.afterPacket pq).entered = t.entered := by
    unfold entered Tcb.afterPacket
    by_cases hsame : t.nextState = t.state
    · simp [hsame]
    · have hnot : t.nextState ≠ .established := fun hn => hsame (hn.trans (hest hn).symm)
      simp [hsame, hnot]
  refine ⟨⟨?_, ?_, ?_, ?_, ?_, ?_⟩, hentered⟩
  · rw [posted_afterPacket, hentered]; exact h.posted_eq
  · rw [hentered]; exact h.entered_le
  · unfold Tcb.afterPacket
    by_cases hsame : t.nextState = t.state
    · simpa [hsame] using h.sorted
    · simp only [hsame, ne_eq, not_false_eq_true, if_true, List.pairwise_append,
        List.pairwise_singleton, List.mem_singleton, true_and]
      refine ⟨h.sorted, fun s hs s' hs' => ?_⟩
      rw [hs']
      exact (h.bounded s hs).2.trans hrank
  · have hold : ∀ s ∈ t.trace.states, s.onLifeCycle = true ∧ s.rank ≤ t.nextState.rank :=
      fun s hs => ⟨(h.bounded s hs).1, (h.bounded s hs).2.trans hrank⟩
    unfold Tcb.afterPacket
    by_cases hsame : t.nextState = t.state
    · simpa [hsame] using h.bounded
    · simp only [hsame, ne_eq, not_false_eq_true, if_true, List.mem_append,
        List.mem_singleton]
      rintro s (hs | rfl)
      · exact hold s hs
      · exact ⟨hon, le_rfl⟩
  · rw [hsyns, afterPacket_state, if_neg hne.2]
    refine h.syns.trans ?_
    split <;> omega
  · rw [hsyns]; exact h.synSeq

/-- `Controlled` decides what the next packet may do. -/
theorem Life.afterPacket {isn : BitVec 32} {t : Tcb} {pq : CircularBuffer Byte}
    (h : Life isn t) (hrank : 2 ≤ t.state.rank) (hpq : t.send.pq = some pq) :
    Life isn (t.afterPacket pq) ∧ t.state.rank ≤ (t.afterPacket pq).state.rank ∧
      (t.afterPacket pq).entered = t.entered := by
  have hcases : (t.state = .established ∧ t.nextState = .established) ∨
      t.nextState = .timeWait := by
    have hcontrol := h.control
    cases hs : t.state <;> simp_all [TcpState.pending, TcpState.rank]
  have hle : t.state.rank ≤ t.nextState.rank := by
    rcases hcases with ⟨hs, hn⟩ | hn <;> rw [hn]
    · rw [hs]
    · cases t.state <;> simp [TcpState.rank]
  have hledger := h.toLedger.afterPacket pq
    (by rcases hcases with ⟨-, hn⟩ | hn <;> rw [hn] <;> rfl) hle
    (by rcases hcases with ⟨-, hn⟩ | hn <;> simp [hn])
    (by rcases hcases with ⟨hs, -⟩ | hn
        · exact fun _ => hs
        · simp [hn])
  refine ⟨⟨h.toControlled.afterPacket hpq, hledger.1, fun hlt => ?_⟩, hle, hledger.2⟩
  rw [afterPacket_state] at hlt
  omega

/-! ## An arriving segment

The ways out of `process`, one lemma for each. -/

/-- The step `t → t'` sets `state_` to ESTABLISHED out of a handshake state. -/
def EntersEstablished (t t' : Tcb) : Prop :=
  (t.state = .synSent ∨ t.state = .synReceived) ∧ t'.entered = t.entered + 1

/-- **Progress.**  The rank does not decrease, and the count of entries into
ESTABLISHED moves only as an entry.  A relation between the two states, so that
it says something about runs by transitivity. -/
structure Progress (t t' : Tcb) : Prop where
  rank_le : t.state.rank ≤ t'.state.rank
  entered : t'.entered = t.entered ∨ EntersEstablished t t'

theorem Progress.refl (t : Tcb) : Progress t t := ⟨le_rfl, .inl rfl⟩

/-- Progress followed by a move that does not enter ESTABLISHED. -/
theorem Progress.trans_of_eq {t u v : Tcb} (h : Progress t u)
    (hrank : u.state.rank ≤ v.state.rank) (hentered : v.entered = u.entered) :
    Progress t v := by
  refine ⟨h.rank_le.trans hrank, ?_⟩
  rw [EntersEstablished, hentered]
  exact h.entered

theorem Life.ackData {isn : BitVec 32} {t : Tcb} {pq : CircularBuffer Byte}
    (ackNo : BitVec 32) (h : Life isn t) (hpq : t.send.pq = some pq) :
    Life isn (t.ackData pq ackNo) :=
  ⟨h.toControlled.ackData hpq, h.toLedger.congr rfl rfl rfl rfl, h.idle⟩

/-- Entering ESTABLISHED from an earlier state and posting the callback. -/
theorem Ledger.enterEstablished {isn : BitVec 32} {t u : Tcb} (h : Ledger isn t)
    (hrank : t.state.rank < 2) (hzero : t.entered = 0) (hstate : u.state = .established)
    (hstates : u.trace.states = t.trace.states ++ [.established])
    (hposted : u.posted = t.posted + 1) (hsyns : u.synsSent = t.synsSent) :
    Ledger isn u ∧ u.entered = t.entered + 1 := by
  have hentered : u.entered = t.entered + 1 := by simp [entered, hstates]
  have hle : ∀ s ∈ t.trace.states, s.rank ≤ TcpState.established.rank := by
    intro s hs
    have := (h.bounded s hs).2
    have hest : TcpState.established.rank = 2 := rfl
    omega
  refine ⟨⟨?_, ?_, ?_, ?_, ?_, ?_⟩, hentered⟩
  · rw [hposted, hentered, h.posted_eq]
  · omega
  · rw [hstates, List.pairwise_append]
    refine ⟨h.sorted, List.pairwise_singleton _ _, fun s hs s' hs' => ?_⟩
    rw [List.mem_singleton.mp hs']
    exact hle s hs
  · rw [hstates, hstate]
    intro s hs
    rcases List.mem_append.mp hs with hs | hs
    · exact ⟨(h.bounded s hs).1, hle s hs⟩
    · rw [List.mem_singleton.mp hs]
      exact ⟨rfl, le_rfl⟩
  · rw [hsyns, hstate]
    refine h.syns.trans ?_
    split <;> simp
  · rw [hsyns]; exact h.synSeq

theorem Life.ackSyn {isn : BitVec 32} {t : Tcb} (ackNo : BitVec 32) (h : Life isn t)
    (hstate : t.state = .synReceived) :
    Life isn (t.ackSyn ackNo) ∧ Progress t (t.ackSyn ackNo) := by
  have hstate' : (t.ackSyn ackNo).state = .established := rfl
  have hrank : t.state.rank < 2 := by rw [hstate]; decide
  have hposted : (t.ackSyn ackNo).posted = t.posted + 1 := by
    simp only [posted, Tcb.ackSyn, clampUnack, setState, setNextState, listenFinish, post,
      List.count_append, List.count_singleton_self]
    omega
  obtain ⟨hledger, hentered⟩ := h.toLedger.enterEstablished hrank (h.idle hrank).2.2 hstate' rfl
    hposted rfl
  refine ⟨⟨controlled_ackSyn h.toControlled hstate, hledger, ?_⟩, ?_, .inr ⟨.inr hstate, hentered⟩⟩
  · rw [hstate']
    exact fun hlt => absurd hlt (by decide)
  · rw [hstate', hstate]
    decide

/-- **The ACK step.**  It may enter ESTABLISHED out of SYN-RECEIVED and post
the callback, or answer with a packet, which enters what is pending. -/
theorem AckOutcome.life {isn : BitVec 32} {t : Tcb} {seg : Segment} {flow : Flow}
    (hack : AckOutcome t seg flow) (h : Life isn t) :
    Life isn flow.block ∧ Progress t flow.block := by
  have hpacket : ∀ {u : Tcb} {pq : CircularBuffer Byte}, Life isn u → u.state = t.state →
      u.entered = t.entered → 2 ≤ t.state.rank → u.send.pq = some pq →
      Life isn (u.afterPacket pq) ∧ Progress t (u.afterPacket pq) := by
    intro u pq hu hs hentered hrank hpq
    obtain ⟨hlife, hle, hent⟩ := hu.afterPacket (by rw [hs]; exact hrank) hpq
    rw [hs] at hle
    exact ⟨hlife, hle, .inl (hent.trans hentered)⟩
  have hdata : t.state.acksData = true → 2 ≤ t.state.rank := by
    intro hacks
    rcases h.acksData_cases hacks with hs | hs <;> rw [hs] <;> decide
  cases hack with
  | absent hACK => exact ⟨h, .refl t⟩
  | accepted hACK hstate hlo hhi => exact h.ackSyn _ hstate
  | refused hACK hstate hrange => exact ⟨h, .refl t⟩
  | data hACK hstate pq hpq hhi =>
      rw [ackNextState_of_acksData (h.toControlled.ackData hpq) hstate]
      exact ⟨h.ackData _ hpq, le_of_eq rfl, .inl rfl⟩
  | unsent hACK hstate pq pq' hpq hhi hpq' =>
      exact hpacket (h.ackData _ hpq) rfl rfl (hdata hstate) hpq'
  | lastAck hACK hstate =>
      have hcontrol := h.control
      rw [hstate] at hcontrol
      cases hcontrol
  | timeWait hACK hstate pq hpq => exact hpacket h rfl rfl (by rw [hstate]; decide) hpq
  | unsynchronized hACK hstate => exact ⟨h, .refl t⟩

theorem TextOutcome.life {isn : BitVec 32} {t t' : Tcb} {seg : Segment}
    (htext : TextOutcome t seg t') (h : Life isn t) :
    Life isn t' ∧ t'.state = t.state ∧ t'.entered = t.entered := by
  cases htext with
  | ignored hno => exact ⟨h, rfl, rfl⟩
  | delivered hyes reader readers hreaders hempty =>
      have hstate : t.state = .established := by
        have htakes : t.state.takesText = true := by
          simp only [acceptsText, Bool.and_eq_true] at hyes
          exact hyes.1.2
        have hcontrol := h.control
        cases hs : t.state <;> simp_all [TcpState.takesText, TcpState.pending]
      refine ⟨⟨h.toControlled.congr rfl rfl Iff.rfl, h.toLedger.congr rfl ?_ rfl rfl, ?_⟩,
        rfl, rfl⟩
      · simp [posted, afterDelivery]
      · intro hlt
        exact absurd (hstate ▸ hlt : TcpState.established.rank < 2) (by decide)
  | appended hyes hreaders hfit =>
      exact ⟨⟨h.toControlled.congr rfl rfl Iff.rfl, h.toLedger.congr rfl rfl rfl rfl, h.idle⟩,
        rfl, rfl⟩

theorem FinOutcome.life {isn : BitVec 32} {t t' : Tcb} {seg : Segment}
    (hfin : FinOutcome t seg t') (h : Life isn t) :
    Life isn t' ∧ t.state.rank ≤ t'.state.rank ∧ t'.entered = t.entered := by
  have hcontrolled := (hfin.control h.toControlled).1
  cases hfin with
  | ignored hno => exact ⟨h, le_rfl, rfl⟩
  | closed hFIN hstate pq hpq =>
      have hledger : Ledger isn ((t.advanceRcvNext 1).setNextState .closeWait) :=
        h.toLedger.congr rfl rfl rfl rfl
      have hle : t.state.rank ≤ TcpState.closeWait.rank := by
        rcases hstate with hs | hs <;> rw [hs] <;> decide
      obtain ⟨hafter, hentered⟩ := hledger.afterPacket pq rfl hle ⟨nofun, nofun⟩ nofun
      refine ⟨⟨hcontrolled, hafter.congr rfl rfl rfl rfl, ?_⟩, hle, hentered⟩
      exact fun hlt => absurd (show TcpState.closeWait.rank < 2 from hlt) (by decide)
  | finWait hFIN hstate =>
      have hcontrol := h.control
      rcases hstate with hs | hs <;> rw [hs] at hcontrol <;> cases hcontrol

/-- A passive open sends the one SYN, with the ISN as its number. -/
theorem Life.passiveOpen {isn : BitVec 32} {t : Tcb} {seg : Segment} {opts : List TcpOption}
    (h : Life isn t) (hstate : t.state = .listen) :
    let u := (t.acceptSyn isn seg opts).afterPacket
      (CircularBuffer.ofCapacity seg.tcph.window.toNat)
    Life isn u ∧ Progress t u := by
  intro u
  obtain ⟨hio, hcon, hzero⟩ := h.idle (by rw [hstate]; decide)
  have hstates : u.trace.states = t.trace.states ++ [.synReceived] := by
    show (if TcpState.synReceived ≠ t.state then _ else _) = _
    rw [if_pos (by simp [hstate])]
    rfl
  have hentered : u.entered = t.entered := by simp [entered, hstates]
  -- In LISTEN no SYN has been sent.
  have hsyns : t.synsSent = [] := by
    have hle := h.syns
    rw [if_pos hstate] at hle
    exact List.length_eq_zero_iff.mp (Nat.le_zero.mp hle)
  have hsyns' : u.synsSent = [(t.acceptSyn isn seg opts).packetOut
      (CircularBuffer.ofCapacity seg.tcph.window.toNat)] := by
    show (t.mngr ++ [_]).filter _ = _
    rw [List.filter_append, ← synsSent, hsyns]
    rfl
  have hbounded := h.bounded
  rw [hstate] at hbounded
  -- SYN-RECEIVED is entered, behind states of no higher rank.
  refine ⟨⟨⟨rfl, by simp [u, acceptSyn, TcpState.opening]⟩, ⟨?_, ?_, ?_, ?_, ?_, ?_⟩, ?_⟩,
    ?_, .inl hentered⟩
  · rw [hentered]; exact h.posted_eq
  · rw [hentered]; exact h.entered_le
  · rw [hstates, List.pairwise_append]
    refine ⟨h.sorted, List.pairwise_singleton _ _, fun s hs s' _ => ?_⟩
    exact (hbounded s hs).2.trans (Nat.zero_le _)
  · rw [hstates]
    intro s hs
    rcases List.mem_append.mp hs with hs | hs
    · exact ⟨(hbounded s hs).1, (hbounded s hs).2.trans (Nat.zero_le _)⟩
    · rw [List.mem_singleton.mp hs]
      exact ⟨rfl, le_of_eq rfl⟩
  · rw [hsyns']
    exact le_of_eq rfl
  · rw [hsyns']
    intro pkt hpkt
    rw [List.mem_singleton.mp hpkt]
    rw [packetOut_seqNo, if_pos (appDataToSendLeft_of_empty rfl)]
    rfl
  · exact fun _ => ⟨hio, hcon, hentered.trans hzero⟩
  · rw [hstate]
    exact Nat.zero_le _

/-- An active open posts the callback. -/
theorem Life.activeOpen {isn : BitVec 32} {t : Tcb} {seg : Segment} {opts : List TcpOption}
    (h : Life isn t) (hstate : t.state = .synSent) :
    let u := ((t.acceptSynAck seg opts).afterPacket
      (CircularBuffer.ofCapacity seg.tcph.window.toNat)).listenFinish
    Life isn u ∧ Progress t u := by
  intro u
  have hrank : t.state.rank < 2 := by rw [hstate]; decide
  have hposted : u.posted = t.posted + 1 := by
    show (t.ioCtx ++ [Task.connectionEstablished]).count _ + t.trace.called.count _ = _
    rw [List.count_append, List.count_singleton_self, posted]
    omega
  have hsyns : u.synsSent = t.synsSent := by
    show (t.mngr ++ [_]).filter _ = _
    rw [List.filter_append]
    simp [packetOut_SYN, acceptSynAck, setState, setNextState, synsSent]
  obtain ⟨hledger, hentered⟩ := h.toLedger.enterEstablished hrank (h.idle hrank).2.2
    (u := u) rfl rfl hposted hsyns
  refine ⟨⟨⟨rfl, ?_⟩, hledger, ?_⟩, ?_, .inr ⟨.inl hstate, hentered⟩⟩
  · simp [u, acceptSynAck, listenFinish, post, setState, setNextState, TcpState.opening]
  · exact fun hlt => absurd (show TcpState.established.rank < 2 from hlt) (by decide)
  · rw [hstate]
    exact Nat.zero_le _

/-- **An arriving segment** keeps the invariant and makes progress.  The case
split is on the state: LISTEN and SYN-SENT open the connection, everything else
runs the numbered steps. -/
theorem process_life {isn : BitVec 32} {t t' : Tcb} {seg : Segment} (h : Life isn t)
    (hprocess : t.process isn seg = .ok t') : Life isn t' ∧ Progress t t' := by
  cases process_cases hprocess with
  | unchanged hno => exact ⟨h, .refl t⟩
  | passiveOpen hstate hRST hACK hSYN opts hopts => exact h.passiveOpen hstate
  | activeOpen hstate hSYN hACK hlo hhi opts hopts => exact h.activeOpen hstate
  | returned hsync hreach hack => exact hack.life h
  | continued hsync hreach hack htext hfin =>
      obtain ⟨h₁, hprogress⟩ := hack.life h
      obtain ⟨h₂, hstate₂, hentered₂⟩ := htext.life h₁
      obtain ⟨h', hrank, hentered'⟩ := hfin.life h₂
      rw [hstate₂] at hrank
      exact ⟨h', hprogress.trans_of_eq hrank (hentered'.trans hentered₂)⟩

/-! ## Events

Calls and handlers, then the run. -/

theorem Life.rank_of_posted {isn : BitVec 32} {t : Tcb} {k : ℕ} {task : Task}
    (h : Life isn t) (hk : t.ioCtx[k]? = some task) : 2 ≤ t.state.rank := by
  by_contra hlt
  rw [(h.idle (by omega)).1] at hk
  cases hk

theorem Life.rank_of_connected {isn : BitVec 32} {t : Tcb} (h : Life isn t)
    (hcon : Connected t) : 2 ≤ t.state.rank := by
  by_contra hlt
  exact (h.idle (by omega)).2.1 hcon

theorem Life.pq_of_rank {isn : BitVec 32} {t : Tcb} (h : Life isn t)
    (hrank : 1 ≤ t.state.rank) : ∃ pq, t.send.pq = some pq := by
  refine h.pq_of_state ?_
  cases hs : t.state <;> simp_all [TcpState.rank, TcpState.opening]

theorem appCall_life {isn : BitVec 32} {t t' : Tcb} {c : AppCall} (h : Life isn t)
    (hrank : 2 ≤ t.state.rank) (hcall : t.appCall c = .ok t') :
    Life isn t' ∧ t'.state = t.state ∧ t'.entered = t.entered := by
  have hcontrol := (appCall_control h.toControlled hcall).1
  have hidle : t.state.rank < 2 → False := by omega
  cases appCall_cases hcall with
  | waits size cb hempty =>
      exact ⟨⟨hcontrol, h.toLedger.congr rfl rfl rfl rfl, h.idle⟩, rfl, rfl⟩
  | reads size cb hdata =>
      refine ⟨⟨hcontrol, h.toLedger.congr rfl ?_ rfl rfl, fun hlt => (hidle hlt).elim⟩, rfl, rfl⟩
      simp [posted, afterRead]
  | writes buf cb pq hpq hfit =>
      refine ⟨⟨hcontrol, h.toLedger.congr rfl ?_ rfl rfl, fun hlt => (hidle hlt).elim⟩, rfl, rfl⟩
      simp [posted, afterWrite]

/-- Taking a handler off the queue moves its callback from *posted* to
*invoked*. -/
theorem posted_enterTask {t : Tcb} {k : ℕ} {task : Task} (hk : t.ioCtx[k]? = some task) :
    (t.enterTask k task).posted = t.posted := by
  obtain ⟨hlt, hget⟩ := List.getElem?_eq_some_iff.mp hk
  have hperm := (List.getElem_cons_eraseIdx_perm hlt).count_eq Task.connectionEstablished
  rw [hget] at hperm
  unfold posted
  rw [enterTask_ioCtx, enterTask_called, ← hperm, List.count_append]
  cases task with
  | connectionEstablished =>
      simp [invokes]
      omega
  | _ => simp [invokes]

theorem Life.enterTask {isn : BitVec 32} {t : Tcb} {k : ℕ} {task : Task} (h : Life isn t)
    (hk : t.ioCtx[k]? = some task) : Life isn (t.enterTask k task) := by
  have hrank := h.rank_of_posted hk
  refine ⟨h.toControlled.enterTask k task,
    h.toLedger.congr (by simp) (posted_enterTask hk) (by simp) (by simp), fun hlt => ?_⟩
  rw [enterTask_state] at hlt
  omega

/-- The environment of a connection: any segments, and calls once the
connection callback has been invoked. -/
def LifeEventOk : Tcb → Event → Prop := EventOk (fun _ _ => True) (fun t _ => Connected t)

/-- **One event** keeps the invariant and makes progress. -/
theorem step_life {isn : BitVec 32} {t t' : Tcb} {e : Event} (h : Life isn t)
    (hok : LifeEventOk t e) (hstep : step isn t e = .ok t') : Life isn t' ∧ Progress t t' := by
  cases e with
  | process seg => exact process_life h hstep
  | call c =>
      obtain ⟨h', hstate, hentered⟩ := appCall_life h (h.rank_of_connected hok) hstep
      exact ⟨h', le_of_eq (by rw [hstate]), .inl hentered⟩
  | task k calls =>
      cases hk : t.ioCtx[k]? with
      | none =>
          rw [step_task_none calls hk] at hstep
          cases hstep
          exact ⟨h, .refl t⟩
      | some task =>
          have hrank := h.rank_of_posted hk
          -- From here on the connection is open and the history does not change.
          have key := task_induction
            (P := fun u => Life isn u ∧ t.state.rank ≤ u.state.rank ∧ u.entered = t.entered)
            ?_ ?_ ?_ ⟨h, le_rfl, rfl⟩ hstep
          · exact ⟨key.1, key.2.1, .inl key.2.2⟩
          · rintro u c u' ⟨hu, hle, hentered⟩ hcall
            obtain ⟨hu', hstate', hentered'⟩ := appCall_life hu (hrank.trans hle) hcall
            exact ⟨hu', by rw [hstate']; exact hle, hentered'.trans hentered⟩
          · rintro u j task' ⟨hu, hle, hentered⟩ hj
            refine ⟨hu.enterTask hj, by rw [enterTask_state]; exact hle, ?_⟩
            rw [entered, enterTask_states]
            exact hentered
          · rintro u pq ⟨hu, hle, hentered⟩ hpq
            obtain ⟨hu', hle', hentered'⟩ := hu.afterPacket (hrank.trans hle) hpq
            exact ⟨hu', hle.trans hle', hentered'.trans hentered⟩

/-- Calls inside a callback never miss the queue. -/
theorem appCalls_ne_nullSendQueue {t : Tcb} {calls : List AppCall}
    (hpq : ∃ pq, t.send.pq = some pq) : t.appCalls calls ≠ .error .nullSendQueue := by
  refine EventSystem.run_avoids (P := fun u => ∃ pq, u.send.pq = some pq) ?_ ?_ hpq
    (EventSystem.admitted_of_forall (fun _ _ => trivial) _ _)
  · exact fun u c u' hu _ h => appCall_keeps_queue u c u' hu h
  · intro u c hu _ h
    cases appCall_error hu h

/-- **No event misses the send queue.**  A null pointer is dereferenced by no
admissible event of a reachable block: segments that need the queue find it,
since the states from SYN-RECEIVED on have one, and calls and handlers come
later still. -/
theorem step_ne_nullSendQueue {isn : BitVec 32} {t : Tcb} {e : Event} (h : Life isn t)
    (hok : LifeEventOk t e) : step isn t e ≠ .error .nullSendQueue := by
  intro hstep
  cases e with
  | process seg =>
      refine process_error (fun hsync => h.pq_of_state ?_) hstep rfl
      cases hs : t.state <;> simp_all [TcpState.synchronized, TcpState.opening]
  | call c =>
      have hrank := h.rank_of_connected hok
      cases appCall_error (h.pq_of_rank (by omega)) hstep
  | task k calls =>
      cases hk : t.ioCtx[k]? with
      | none => rw [step_task_none calls hk] at hstep; cases hstep
      | some task =>
          rw [step_task_some calls hk] at hstep
          have hrank := h.rank_of_posted hk
          have hpq : ∃ pq, (t.enterTask k task).send.pq = some pq := by
            rw [enterTask_send]
            exact h.pq_of_rank (by omega)
          cases task with
          | connectionEstablished => exact appCalls_ne_nullSendQueue hpq hstep
          | writeDone cb len => exact appCalls_ne_nullSendQueue hpq hstep
          | readDone cb len =>
              rcases bind_eq_error.mp hstep with hcalls | ⟨u, hu, hsend⟩
              · exact appCalls_ne_nullSendQueue hpq hcalls
              · obtain ⟨pq, hpqu⟩ := appCalls_induction
                  (fun t c t' hpq h => appCall_keeps_queue t c t' hpq h) hpq hu
                rw [(makeAndSendPkt_error.mp hsend).1] at hpqu
                cases hpqu
          | sendLoop =>
              obtain ⟨pq, hpq⟩ := hpq
              obtain ⟨u, hu⟩ := sendLoop_total hpq
              rw [runTask, hu] at hstep
              cases hstep

theorem Controlled.onLifeCycle {t : Tcb} (h : Controlled t) : t.state.onLifeCycle = true := by
  have hcontrol := h.control
  cases hs : t.state <;> simp_all [TcpState.pending, TcpState.onLifeCycle]

/-- **The connection life cycle is monotone.**  In every run of a block that
`tcb_manager` made, over arbitrary segments and handlers and over application
calls after the connection callback: the queue is never missing; only the six
states are entered, in order; the callback is posted at most once; at most one
SYN is sent, with the ISN; the queue exists from SYN-RECEIVED on; and each
further event moves the rank up and posts the callback exactly where it enters
ESTABLISHED. -/
theorem lifeCycle_monotone {isn : BitVec 32} {t₀ : Tcb} {es : List Event}
    (hopen : Opened isn t₀) (hok : Admitted (step isn) LifeEventOk t₀ es) :
    run isn t₀ es ≠ .error .nullSendQueue ∧
    ∀ t, run isn t₀ es = .ok t →
      t.state.onLifeCycle = true ∧
      (∀ s ∈ t.trace.states, s.onLifeCycle = true) ∧
      (t.trace.states.Pairwise fun s s' => s.rank ≤ s'.rank) ∧
      t.posted ≤ 1 ∧
      t.synsSent.length ≤ 1 ∧
      (∀ pkt ∈ t.synsSent, pkt.skb.tcph.seqNo = isn) ∧
      (1 ≤ t.state.rank → ∃ pq, t.send.pq = some pq) ∧
      ∀ e t', LifeEventOk t e → step isn t e = .ok t' →
        t.state.rank ≤ t'.state.rank ∧
        (EntersEstablished t t' → t'.posted = t.posted + 1) ∧
        (¬ EntersEstablished t t' → t'.posted = t.posted) := by
  have hstep : ∀ s e s', Life isn s → LifeEventOk s e → step isn s e = .ok s' → Life isn s' :=
    fun s e s' h hok hs => (step_life h hok hs).1
  refine ⟨EventSystem.run_avoids hstep (fun s e h hok => step_ne_nullSendQueue h hok) hopen.life
    hok, fun t hrun => ?_⟩
  have h : Life isn t := EventSystem.run_invariant hstep hopen.life hok hrun
  refine ⟨h.onLifeCycle, fun s hs => (h.bounded s hs).1, h.sorted, ?_, ?_, h.synSeq,
    h.pq_of_rank, ?_⟩
  · rw [h.posted_eq]; exact h.entered_le
  · refine h.syns.trans ?_
    split <;> omega
  · intro e t' hoke he
    obtain ⟨h', hprogress⟩ := step_life h hoke he
    rw [h'.posted_eq, h.posted_eq]
    refine ⟨hprogress.rank_le, fun henters => henters.2, fun hno => ?_⟩
    exact hprogress.entered.resolve_right hno

/-- A handshake and the connection callback, in which the application writes. -/
def openAndWrite : List Event :=
  [.process ⟨{ TcpHeader.bare with SYN := true, seqNo := 100, window := 500 }, [], []⟩,
    .process ⟨{ TcpHeader.bare with ACK := true, seqNo := 101, ackNo := 8 }, [], []⟩,
    .task 0 [.write [0x68, 0x69] 1]]

/-- In that run the callback has been posted once and the rank is that of
ESTABLISHED. -/
theorem openAndWrite_lifeCycle : Admitted (step 7) LifeEventOk listening openAndWrite ∧
    ∃ t, run 7 listening openAndWrite = .ok t ∧ t.posted ≤ 1 ∧ t.state.rank = 2 := by
  have hok : Admitted (step 7) LifeEventOk listening openAndWrite := by
    refine .cons trivial rfl ?_
    refine .cons trivial rfl ?_
    refine .single fun task hk _ => ?_
    cases hk
    exact .single (List.mem_singleton.mpr rfl)
  exact ⟨hok, _, rfl, ((lifeCycle_monotone (opened_listening 7) hok).2 _ rfl).2.2.2.1, rfl⟩

end Tcb

end Mstack
