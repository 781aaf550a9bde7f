import Mstack.Lib.ReceiveWindow
import Mstack.Tcp.SendStream

/-!
# The receiving side

What a block takes from its peer, against the abstract `ReceiveWindow`.

A window is a stream of which a prefix has been handed on; the rest is
buffered.  `Receives base w t` says that the block `t` represents the window
`w`: the bytes copied into reader buffers are what was handed on, `rcv_.pq` is
what is buffered, and RCV.NXT is `base` plus the number of bytes handed on.
RCV.NXT counts what readers have *got*, not what has arrived, so the guard of
the text step adds the size of the queue.

Three paths move bytes, and each is made of the two operations of the window:

* a read out of the queue is `hand`;
* a segment appended to the queue is `accept`;
* a segment for a waiting reader, with the rest put into the queue, is `accept`
  followed by `hand`.

### Main results

* `Open.receiveEffect` — what one segment does, past the handshake: it takes
  the text or not (`takes`), and it counts a FIN or not (`closes`).  Both are
  functions of the block and the segment.
* `OneReader` — the discipline of a reader that waits for its completion before
  it reads again; every event keeps it.

### What is load-bearing

**A text is taken whole or not at all.**  There is no trimming at either end of
the window, so a segment that begins with bytes already here is dropped with
the new ones behind them, and the stream grows by whole segments.
-/

namespace Mstack

namespace Tcb

open EventSystem (bind_eq_ok Admitted)

/-- The bytes copied into reader buffers, in read order. -/
def handed (t : Tcb) : List Byte := (t.trace.copied.map (·.2)).flatten

/-- The texts that passed the guard of the text step, in arrival order. -/
def accepted (t : Tcb) : List Byte := t.trace.acceptedText.flatten

/-- **The block represents the window.**  `base` is the number of the first
byte handed on. -/
structure Receives (base : BitVec 32) (w : ReceiveWindow Byte) (t : Tcb) : Prop where
  copied : t.handed = w.delivered
  buffered : t.rcv.pq.data = w.buffered
  next : t.rcv.state.next = base + BitVec.ofNat 32 w.handed

section Receives

variable {base : BitVec 32} {w : ReceiveWindow Byte} {t : Tcb}

/-- Every block represents some window. -/
theorem exists_receives (t : Tcb) : ∃ base w, Receives base w t := by
  refine ⟨t.rcv.state.next - BitVec.ofNat 32 t.handed.length,
    ⟨t.handed ++ t.rcv.pq.data, t.handed.length, by simp⟩, ?_, ?_, ?_⟩
  · exact (List.take_left' rfl).symm
  · exact (List.drop_left' rfl).symm
  · exact (BitVec.sub_add_cancel _ _).symm

theorem Receives.congr {u : Tcb} (h : Receives base w t) (hrcv : u.rcv = t.rcv)
    (hcopied : u.trace.copied = t.trace.copied) : Receives base w u := by
  refine ⟨?_, ?_, ?_⟩
  · rw [handed, hcopied]; exact h.copied
  · rw [hrcv]; exact h.buffered
  · rw [hrcv]; exact h.next

/-- What has arrived: in the hands of readers, or in the queue. -/
theorem Receives.received (h : Receives base w t) : t.handed ++ t.rcv.pq.data = w.stream := by
  rw [h.copied, h.buffered, w.delivered_append_buffered]

/-- A read out of the queue. -/
theorem Receives.afterRead (h : Receives base w t) (size : ℕ) (cb : CallbackId) :
    ∃ hle, Receives base (w.hand (min t.rcv.pq.size size) hle) (t.afterRead size cb) := by
  have hle : min t.rcv.pq.size size ≤ w.buffered.length := by
    rw [← h.buffered]
    exact Nat.min_le_left _ _
  refine ⟨hle, ?_, ?_, ?_⟩
  · rw [w.delivered_hand, ← h.copied, ← h.buffered]
    simp [handed, Tcb.afterRead]
  · rw [w.buffered_hand, ← h.buffered]
    rfl
  · show t.rcv.state.next + BitVec.ofNat 32 _ = base + BitVec.ofNat 32 (w.handed + _)
    rw [h.next, SerialNumber.add_ofNat_add]

/-- A segment appended to the queue. -/
theorem Receives.afterAppend (h : Receives base w t) (text : List Byte) :
    Receives base (w.accept text) (t.afterAppend text) := by
  refine ⟨?_, ?_, h.next⟩
  · rw [w.delivered_accept]; exact h.copied
  · rw [w.buffered_accept, afterAppend_data, h.buffered]

/-- A segment handed to the reader that waits, with the rest left in the
queue. -/
theorem Receives.afterDelivery (h : Receives base w t) (hempty : t.rcv.pq.data = [])
    (reader : Reader) (readers : List Reader) (text : List Byte) :
    ∃ hle, Receives base ((w.accept text).hand (min text.length reader.size) hle)
      (t.afterDelivery reader readers text) := by
  have hbuffered : (w.accept text).buffered = text := by
    rw [w.buffered_accept, ← h.buffered, hempty, List.nil_append]
  have hle : min text.length reader.size ≤ (w.accept text).buffered.length := by
    rw [hbuffered]
    exact Nat.min_le_left _ _
  refine ⟨hle, ?_, ?_, ?_⟩
  · rw [(w.accept text).delivered_hand, hbuffered, w.delivered_accept, ← h.copied]
    simp [handed, Tcb.afterDelivery]
  · rw [(w.accept text).buffered_hand, hbuffered, afterDelivery_data reader readers text hempty]
  · show t.rcv.state.next + BitVec.ofNat 32 _ = base + BitVec.ofNat 32 (w.handed + _)
    rw [h.next, SerialNumber.add_ofNat_add]

/-- RCV.NXT counts the FIN as a byte. -/
theorem Receives.advance (h : Receives base w t) : Receives (base + 1) w (t.advanceRcvNext 1) := by
  refine ⟨h.copied, h.buffered, ?_⟩
  show t.rcv.state.next + 1 = _
  rw [h.next]
  ac_rfl

/-- **The text step** keeps what has arrived, or appends the text it accepts.
Whether a reader waits decides how much of it is handed on, and not what the
stream is. -/
theorem TextOutcome.receives {t' : Tcb} {seg : Segment} (hout : TextOutcome t seg t')
    (h : Receives base w t) :
    (t.acceptsText seg = false ∧ t' = t) ∨
    (t.acceptsText seg = true ∧ t'.trace.acceptedText = t.trace.acceptedText ++ [seg.text] ∧
      ∃ w', Receives base w' t' ∧ w'.stream = w.stream ++ seg.text ∧ w.handed ≤ w'.handed) := by
  cases hout with
  | ignored hno => exact .inl ⟨hno, rfl⟩
  | delivered hyes reader readers hreaders hempty =>
      obtain ⟨hle, h'⟩ := h.afterDelivery hempty reader readers seg.text
      exact .inr ⟨hyes, rfl, _, h', rfl, Nat.le_add_right _ _⟩
  | appended hyes hreaders hfit => exact .inr ⟨hyes, rfl, _, h.afterAppend seg.text, rfl, le_rfl⟩

/-- An application call keeps what has arrived. -/
theorem CallOutcome.receives {t' : Tcb} {c : AppCall} (hout : CallOutcome t c t')
    (h : Receives base w t) :
    t'.trace.acceptedText = t.trace.acceptedText ∧
      ∃ w', Receives base w' t' ∧ w'.stream = w.stream ∧ w.handed ≤ w'.handed := by
  cases hout with
  | waits size cb hempty => exact ⟨rfl, w, h.congr rfl rfl, rfl, le_rfl⟩
  | reads size cb hdata =>
      obtain ⟨hle, h'⟩ := h.afterRead size cb
      exact ⟨rfl, _, h', rfl, Nat.le_add_right _ _⟩
  | writes buf cb pq hpq hfit => exact ⟨rfl, w, h.congr rfl rfl, rfl, le_rfl⟩

end Receives

/-! ## An arriving segment

Past the handshake two functions of block and segment say what happens. -/

/-- The segment gets past the ACK step: it is not answered with a packet
there. -/
def handles (t : Tcb) (seg : Segment) : Bool :=
  t.reachesAckStep seg && !(seg.tcph.ACK && decide (seg.tcph.ackNo > t.send.state.seqNrNext))

/-- The text step takes the segment. -/
def takes (t : Tcb) (seg : Segment) : Bool := t.handles seg && t.acceptsText seg

/-- The FIN step closes the peer's half of the connection. -/
def closes (t : Tcb) (seg : Segment) : Bool :=
  t.handles seg && seg.tcph.FIN && decide (t.state = .established)

/-- **What a segment does to the receive side** of a block past the handshake:
it takes the text or not, and it counts a FIN or not.  `state` says that the
block leaves ESTABLISHED by a FIN and by nothing else. -/
structure ReceiveEffect (base : BitVec 32) (w : ReceiveWindow Byte) (t : Tcb) (seg : Segment)
    (w' : ReceiveWindow Byte) (t' : Tcb) : Prop where
  receives : Receives (if t.closes seg then base + 1 else base) w' t'
  stream : w'.stream = if t.takes seg then w.stream ++ seg.text else w.stream
  handed : w.handed ≤ w'.handed
  accepted : t'.trace.acceptedText =
    if t.takes seg then t.trace.acceptedText ++ [seg.text] else t.trace.acceptedText
  state : t'.state = .established ↔ t.state = .established ∧ t.closes seg = false

section ReceiveEffect

variable {base : BitVec 32} {w : ReceiveWindow Byte} {t t' : Tcb} {seg : Segment}

/-- A segment that does not get past the ACK step leaves the receive side
alone. -/
theorem receiveEffect_of_not_handles (h : Receives base w t) (hno : t.handles seg = false)
    (hrcv : t'.rcv = t.rcv) (hcopied : t'.trace.copied = t.trace.copied)
    (haccepted : t'.trace.acceptedText = t.trace.acceptedText)
    (hstate : t'.state = .established ↔ t.state = .established) :
    ReceiveEffect base w t seg w t' := by
  have htakes : t.takes seg = false := by simp [takes, hno]
  have hcloses : t.closes seg = false := by simp [closes, hno]
  refine ⟨?_, ?_, le_rfl, ?_, ?_⟩
  · rw [hcloses]; exact h.congr hrcv hcopied
  · rw [htakes]; rfl
  · rw [htakes]; exact haccepted
  · rw [hcloses, hstate]; simp

/-- The ways through the ACK step past the handshake: the segment is answered
there, or it goes on with the state and the receive side as they were. -/
theorem Open.ack_cases {flow : Flow} (hopen : Open t) (hreach : t.reachesAckStep seg = true)
    (hack : AckOutcome t seg flow) :
    (∃ u, flow = .ret u ∧ t.handles seg = false ∧ u.state = t.nextState ∧ u.rcv = t.rcv ∧
      u.trace.copied = t.trace.copied ∧ u.trace.acceptedText = t.trace.acceptedText) ∨
    (∃ u, flow = .next u ∧ u.state = t.state ∧ u.rcv = t.rcv ∧
      u.onDataReceive = t.onDataReceive ∧ u.trace.copied = t.trace.copied ∧
      u.trace.acceptedText = t.trace.acceptedText ∧
      (t.handles seg = true ∨ t.state = .timeWait)) := by
  have hframe := hack.frame
  cases hack with
  | absent hACK =>
      exact .inr ⟨t, rfl, rfl, rfl, rfl, rfl, rfl, .inl (by simp [handles, hreach, hACK])⟩
  | accepted hACK hstate => exact (hopen.ne_synReceived hstate).elim
  | refused hACK hstate => exact (hopen.ne_synReceived hstate).elim
  | data hACK hstate pq hpq hhi =>
      rw [ackNextState_of_acksData (hopen.toControlled.ackData hpq) hstate]
      refine .inr ⟨_, rfl, rfl, rfl, rfl, rfl, rfl, .inl ?_⟩
      simp only [handles, hreach, hACK, hhi, decide_false, Bool.and_false, Bool.not_false,
        Bool.and_self]
  | unsent hACK hstate pq pq' hpq hhi hpq' =>
      refine .inl ⟨_, rfl, ?_, rfl, rfl, rfl, rfl⟩
      simp only [handles, hreach, hACK, hhi, decide_true, Bool.and_self, Bool.not_true,
        Bool.and_false]
  | lastAck hACK hstate =>
      rcases hopen.state with hs | hs | hs <;> rw [hs] at hstate <;> cases hstate
  | timeWait hACK hstate pq hpq =>
      refine .inr ⟨_, rfl, ?_, rfl, rfl, rfl, rfl, .inr hstate⟩
      rw [afterPacket_state, hopen.nextState_eq hstate rfl, hstate]
  | unsynchronized hACK hstate => rw [hopen.synchronized] at hstate; cases hstate

/-- The guard and the state decide, and the ACK step changes neither. -/
theorem acceptsText_congr {u : Tcb} (hstate : u.state = t.state) (hrcv : u.rcv = t.rcv) :
    u.acceptsText seg = t.acceptsText seg := by
  simp only [acceptsText, textGuard, hstate, hrcv]

theorem FinOutcome.receives (hout : FinOutcome t seg t') (h : Receives base w t)
    (hopen : t.state = .established ∨ t.state = .closeWait ∨ t.state = .timeWait) :
    t'.trace.acceptedText = t.trace.acceptedText ∧
    ((seg.tcph.FIN = true ∧ t.state = .established ∧ t'.state = .closeWait ∧
        Receives (base + 1) w t') ∨
      (¬ (seg.tcph.FIN = true ∧ t.state = .established) ∧ t'.state = t.state ∧
        Receives base w t')) := by
  cases hout with
  | ignored hno =>
      refine ⟨rfl, .inr ⟨?_, rfl, h⟩⟩
      rintro ⟨hFIN, hs⟩
      rcases hno with hno | ⟨-, hno⟩
      · rw [hFIN] at hno; cases hno
      · rw [hs] at hno; cases hno
  | closed hFIN hstate pq hpq =>
      have hs : t.state = .established := by
        rcases hstate with hs | hs
        · rcases hopen with h | h | h <;> rw [hs] at h <;> cases h
        · exact hs
      exact ⟨rfl, .inl ⟨hFIN, hs, rfl, h.advance.congr rfl rfl⟩⟩
  | finWait hFIN hstate =>
      rcases hopen with h | h | h <;> rw [h] at hstate <;> simp at hstate

/-- Text step and FIN step, for a segment that gets past the ACK step. -/
theorem Open.receiveEffect_next {t₁ t₂ : Tcb} (hopen : Open t) (h : Receives base w t)
    (hs : t₁.state = t.state) (hrcv : t₁.rcv = t.rcv)
    (hcopied : t₁.trace.copied = t.trace.copied)
    (hacc : t₁.trace.acceptedText = t.trace.acceptedText)
    (hhandles : t.handles seg = true ∨ t.state = .timeWait)
    (htext : TextOutcome t₁ seg t₂) (hfin : FinOutcome t₂ seg t') :
    ∃ w', ReceiveEffect base w t seg w' t' := by
  have hyes : t₁.acceptsText seg = t.acceptsText seg := acceptsText_congr hs hrcv
  have htakes : t.takes seg = t₁.acceptsText seg := by
    rw [hyes]
    rcases hhandles with hh | htw
    · simp [takes, hh]
    · simp [takes, acceptsText, htw, TcpState.takesText]
  have hcloses : t.closes seg = true ↔ seg.tcph.FIN = true ∧ t.state = .established := by
    rcases hhandles with hh | htw
    · simp [closes, hh]
    · simp [closes, htw]
  have hs₂ : t₂.state = t.state := htext.state_eq.trans hs
  -- After the text step the stream has grown by the text, or not at all.
  obtain ⟨w₂, h₂, hstream, hhanded, hacc₂⟩ : ∃ w₂, Receives base w₂ t₂ ∧
      w₂.stream = (if t.takes seg then w.stream ++ seg.text else w.stream) ∧
      w.handed ≤ w₂.handed ∧
      t₂.trace.acceptedText = (if t.takes seg then t.trace.acceptedText ++ [seg.text]
        else t.trace.acceptedText) := by
    rw [htakes]
    rcases htext.receives (h.congr hrcv hcopied) with
      ⟨hno, rfl⟩ | ⟨hyes', hacc', w', hw', hw'stream, hw'handed⟩
    · rw [hno]
      exact ⟨w, h.congr hrcv hcopied, rfl, le_rfl, hacc⟩
    · rw [hyes']
      exact ⟨w', hw', hw'stream, hw'handed, by rw [hacc', hacc]; rfl⟩
  obtain ⟨hacc', hcase⟩ := hfin.receives h₂ (hs₂ ▸ hopen.state)
  rw [hs₂] at hcase
  rcases hcase with ⟨hFIN, hest, hstate', h'⟩ | ⟨hno, hstate', h'⟩
  · have hyes : t.closes seg = true := hcloses.mpr ⟨hFIN, hest⟩
    refine ⟨w₂, ?_, hstream, hhanded, hacc'.trans hacc₂, ?_⟩
    · rw [hyes]; exact h'
    · rw [hyes, hstate']; simp
  · have hno : t.closes seg = false := by
      by_contra hyes
      exact hno (hcloses.mp (by simpa using hyes))
    refine ⟨w₂, ?_, hstream, hhanded, hacc'.trans hacc₂, ?_⟩
    · rw [hno]; exact h'
    · rw [hno, hstate']; simp

/-- **An arriving segment, seen from the receive side.**  Whatever way it takes
through `process`, its effect is the one of `takes` and `closes`. -/
theorem Open.receiveEffect {isn : BitVec 32} (hopen : Open t) (h : Receives base w t)
    (hprocess : t.process isn seg = .ok t') : ∃ w', ReceiveEffect base w t seg w' t' := by
  rcases hopen.process_cases hprocess with
    ⟨hno, rfl⟩ | ⟨hreach, hret⟩ | ⟨hreach, t₁, t₂, hnext, htext, hfin⟩
  · exact ⟨w, receiveEffect_of_not_handles h (by simp [handles, hno]) rfl rfl rfl Iff.rfl⟩
  · rcases hopen.ack_cases hreach hret with
      ⟨u, hflow, hno, hs, hrcv, hcopied, hacc⟩ | ⟨u, hflow, -⟩ <;> cases hflow
    refine ⟨w, receiveEffect_of_not_handles h hno hrcv hcopied hacc ?_⟩
    rw [hs]
    rcases hopen.state with hst | hst | hst <;> rw [hopen.nextState_eq hst rfl, hst]
    simp
  · rcases hopen.ack_cases hreach hnext with
      ⟨u, hflow, -⟩ | ⟨u, hflow, hs, hrcv, -, hcopied, hacc, hhandles⟩ <;> cases hflow
    exact hopen.receiveEffect_next h hs hrcv hcopied hacc hhandles htext hfin

end ReceiveEffect

/-- The announced window never changes, and the receive queue never loses
capacity. -/
theorem Open.process_rcv {isn : BitVec 32} {t t' : Tcb} {seg : Segment} (hopen : Open t)
    (hprocess : t.process isn seg = .ok t') :
    t'.rcv.state.window = t.rcv.state.window ∧ t.rcv.pq.capacity ≤ t'.rcv.pq.capacity := by
  rcases hopen.process_cases hprocess with
    ⟨-, rfl⟩ | ⟨-, hret⟩ | ⟨-, t₁, t₂, hnext, htext, hfin⟩
  · exact ⟨rfl, le_rfl⟩
  · rw [show t'.rcv = t.rcv from hret.frame.1]
    exact ⟨rfl, le_rfl⟩
  · have hrcv : t₁.rcv = t.rcv := hnext.frame.1
    have htext' : t₂.rcv.state.window = t₁.rcv.state.window ∧
        t₁.rcv.pq.capacity ≤ t₂.rcv.pq.capacity := by
      cases htext with
      | ignored _ => exact ⟨rfl, le_rfl⟩
      | delivered _ reader readers => exact ⟨rfl, Nat.le_max_left _ _⟩
      | appended _ _ _ => exact ⟨rfl, Nat.le_max_left _ _⟩
    rw [hrcv] at htext'
    cases hfin with
    | ignored _ => exact htext'
    | closed _ _ pq _ => exact htext'
    | finWait _ _ => exact htext'

/-! ## One reader at a time

The discipline that keeps the assertion of the text step. -/

/-- At most one reader waits; while it does, nothing is buffered and no read
completion is posted.  The second half is what the assertion of the text step
asks for. -/
structure OneReader (t : Tcb) : Prop where
  one : t.onDataReceive.length ≤ 1
  waiting : t.onDataReceive ≠ [] → t.rcv.pq.data = [] ∧ ∀ cb len, .readDone cb len ∉ t.ioCtx

theorem OneReader.of_nil {t : Tcb} (h : t.onDataReceive = []) : OneReader t :=
  ⟨by simp [h], fun hne => (hne h).elim⟩

theorem OneReader.congr {t u : Tcb} (h : OneReader t) (hreaders : u.onDataReceive = t.onDataReceive)
    (hrcv : u.rcv = t.rcv)
    (hio : ∀ cb len, Task.readDone cb len ∈ u.ioCtx → .readDone cb len ∈ t.ioCtx) :
    OneReader u := by
  refine ⟨by rw [hreaders]; exact h.one, fun hne => ?_⟩
  rw [hreaders] at hne
  obtain ⟨hempty, hno⟩ := h.waiting hne
  exact ⟨by rw [hrcv]; exact hempty, fun cb len hmem => hno cb len (hio cb len hmem)⟩

theorem AckOutcome.oneReader {t : Tcb} {seg : Segment} {flow : Flow}
    (hout : AckOutcome t seg flow) (h : OneReader t) : OneReader flow.block := by
  obtain ⟨hrcv, hreaders, -⟩ := hout.frame
  refine h.congr hreaders hrcv fun cb len hmem => ?_
  cases hout with
  | accepted hACK hstate hlo hhi =>
      change Task.readDone cb len ∈ t.ioCtx ++ [Task.connectionEstablished] at hmem
      simpa using hmem
  | data hACK hstate pq hpq hhi =>
      obtain ⟨n, hn⟩ := (t.ackData pq seg.tcph.ackNo).ackNextState_eq
      rw [hn] at hmem
      exact hmem
  | _ => exact hmem

theorem TextOutcome.oneReader {t t' : Tcb} {seg : Segment} (hout : TextOutcome t seg t')
    (h : OneReader t) : OneReader t' := by
  cases hout with
  | ignored hno => exact h
  | delivered hyes reader readers hreaders hempty =>
      have hone := h.one
      rw [hreaders, List.length_cons] at hone
      have hnil : readers = [] := List.length_eq_zero_iff.mp (by omega)
      exact .of_nil hnil
  | appended hyes hreaders hfit => exact .of_nil hreaders

theorem FinOutcome.oneReader {t t' : Tcb} {seg : Segment} (hout : FinOutcome t seg t')
    (h : OneReader t) : OneReader t' := by
  cases hout with
  | ignored hno => exact h
  | closed hFIN hstate pq hpq => exact ⟨h.one, h.waiting⟩
  | finWait hFIN hstate => exact ⟨h.one, h.waiting⟩

theorem OneReader.process {isn : BitVec 32} {t t' : Tcb} {seg : Segment} (h : OneReader t)
    (hopen : Open t) (hprocess : t.process isn seg = .ok t') : OneReader t' := by
  rcases hopen.process_cases hprocess with
    ⟨-, rfl⟩ | ⟨-, hret⟩ | ⟨-, t₁, t₂, hnext, htext, hfin⟩
  · exact h
  · exact hret.oneReader h
  · exact hfin.oneReader (htext.oneReader (hnext.oneReader h))

/-- The application keeps at most one read outstanding, and its writes fit. -/
def OneRead (t : Tcb) : AppCall → Prop
  | .read _ _ => NoReadOutstanding t
  | .write buf _ => WriteFits t buf

instance (t : Tcb) (c : AppCall) : Decidable (t.OneRead c) :=
  match c with
  | .read _ _ => inferInstanceAs (Decidable (NoReadOutstanding t))
  | .write buf _ => inferInstanceAs (Decidable (WriteFits t buf))

theorem OneReader.appCall {t t' : Tcb} {c : AppCall} (h : OneReader t) (hok : OneRead t c)
    (hcall : t.appCall c = .ok t') : OneReader t' := by
  cases appCall_cases hcall with
  | waits size cb hempty =>
      obtain ⟨hnil, hno⟩ := hok
      exact ⟨by simp [afterWait, hnil], fun _ => ⟨hempty, hno⟩⟩
  | reads size cb hdata => exact .of_nil hok.1
  | writes buf cb pq hpq hfit =>
      refine h.congr rfl rfl fun cb' len hmem => ?_
      change Task.readDone cb' len ∈ t.ioCtx ++ [Task.sendLoop] ++ [Task.writeDone cb buf.length]
        at hmem
      simpa using hmem

theorem OneReader.enterTask {t : Tcb} (h : OneReader t) (k : ℕ) (task : Task) :
    OneReader (t.enterTask k task) := by
  refine h.congr (by simp) (by simp) fun cb len hmem => ?_
  rw [enterTask_ioCtx] at hmem
  exact List.mem_of_mem_eraseIdx hmem

theorem OneReader.afterPacket {t : Tcb} (h : OneReader t) (pq : CircularBuffer Byte) :
    OneReader (t.afterPacket pq) := ⟨h.one, h.waiting⟩

/-- A call within the discipline does not abort. -/
theorem OneRead.total {t : Tcb} {c : AppCall} (h : OneRead t c) :
    ∃ t', t.appCall c = .ok t' := by
  cases c with
  | read size cb => exact ⟨_, rfl⟩
  | write buf cb =>
      obtain ⟨pq, hpq, hfit⟩ := h
      exact ⟨_, asyncWrite_ok.mpr ⟨pq, hpq, hfit, rfl⟩⟩

end Tcb

end Mstack
